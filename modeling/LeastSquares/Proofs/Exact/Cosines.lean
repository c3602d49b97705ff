import LeastSquares.Proofs.Stationary
import LeastSquares.Proofs.Exact.Confinement
import LeastSquares.Proofs.Exact.Orthogonality

/-!
# The test for a stationary iterate

The number that is compared with the tolerance on the gradient is computed from the triangle, the
turned residuals and the norms of the columns, in the order of the pivots. Without errors of
rounding it is the largest cosine between the residuals and a column of the Jacobian itself.
-/
namespace LeastSquares

open Matrix

variable {m n : Nat}

/-! ### Cosines of vectors -/

/-- The cosine, up to its sign, of the angle between two vectors. -/
noncomputable def absCosine (v w : Vector ℝ m) : ℝ :=
  |v.get ⬝ᵥ w.get| / (norm v.toList * norm w.toList)

theorem absCosine_nonneg (v w : Vector ℝ m) : 0 ≤ absCosine v w :=
  div_nonneg (abs_nonneg _) (mul_nonneg (norm_nonneg v) (norm_nonneg w))

theorem absCosine_le_one (v w : Vector ℝ m) : absCosine v w ≤ 1 := by
  refine div_le_one_of_le₀ ?_ (mul_nonneg (norm_nonneg v) (norm_nonneg w))
  rw [norm_real, norm_real, ← Real.sqrt_mul (Finset.sum_nonneg fun i _ => sq_nonneg (v.get i))]
  exact Real.abs_le_sqrt (Finset.sum_mul_sq_le_sq_mul_sq ..)

/-! ### The largest cosine -/

/-- The cosines with columns that are not zero, in the order of the columns. -/
def cosinesWith (a : Columns ℝ m n) (w : Vector ℝ m) : Set ℝ :=
  {x | ∃ l, norm (a.get l).toList ≠ 0 ∧ absCosine (a.get l) w = x}

/-- The largest of the numbers that count bounds them all, and is one of them or still zero. -/
theorem largestCosine_spec (zero : Fin n → Bool) (cosines : Fin n → ℝ) :
    (∀ j, zero j = false → cosines j ≤ largestCosine zero cosines) ∧
      (largestCosine zero cosines = 0 ∨
        ∃ j, zero j = false ∧ cosines j = largestCosine zero cosines) := by
  have reached :
      (∀ j : Fin n, j.val < n → zero j = false → cosines j ≤ largestCosine zero cosines) ∧
      (largestCosine zero cosines = 0 ∨
        ∃ j, zero j = false ∧ cosines j = largestCosine zero cosines) := by
    -- What has been passed is bounded by the maximum so far, which is one of it or still zero.
    refine foldl_invariant (fun k (g : ℝ) =>
      (∀ j : Fin n, j.val < k → zero j = false → cosines j ≤ g) ∧
        (g = 0 ∨ ∃ j, zero j = false ∧ cosines j = g)) ⟨nofun, .inl rfl⟩ ?_
    rintro k g ⟨bounds, attained⟩
    cases skipped : zero k with
    | true =>
      rw [if_pos rfl]
      refine ⟨fun j inside present => ?_, attained⟩
      rcases Nat.lt_succ_iff_lt_or_eq.mp inside with earlier | same
      · exact bounds j earlier present
      · rw [Fin.ext same, skipped] at present
        cases present
    | false =>
      rw [if_neg Bool.false_ne_true, larger_real]
      refine ⟨fun j inside present => ?_, ?_⟩
      · rcases Nat.lt_succ_iff_lt_or_eq.mp inside with earlier | same
        · exact le_max_of_le_left (bounds j earlier present)
        · rw [Fin.ext same]
          exact le_max_right _ _
      · rcases le_total g (cosines k) with grows | stays
        · rw [max_eq_right grows]
          exact .inr ⟨k, skipped, rfl⟩
        · rw [max_eq_left stays]
          exact attained
  exact ⟨fun j => reached.1 j j.isLt, reached.2⟩

namespace Factor

variable (tall : n ≤ m) (f : Factor ℝ m n)

/-- What is computed from the triangle is the cosine with the column that was moved there. -/
theorem cosine_eq_absCosine (w : Vector ℝ m) (c : Fin n) :
    (f.compute true).cosine tall w (norm w.toList) c =
      absCosine (f.packed.get ((f.compute true).pivots.get c)) w := by
  have product := f.column_dot tall c w
  have turned : sumWhere (· ≤ c) (fun i => ((f.compute true).square tall).lead tall i c *
      (((f.compute true).projected tall w).get i / norm w.toList)) =
      (f.packed.get ((f.compute true).pivots.get c)).get ⬝ᵥ w.get / norm w.toList := by
    rw [sumWhere_real, ← product, Finset.sum_filter, Finset.sum_div]
    refine Finset.sum_congr rfl fun i _ => ?_
    simp only [Columns.upper, of_apply, get_projected]
    split
    · ring
    · ring
  unfold cosine LeastSquares.cosine absCosine
  rw [turned, get_compute_norms, abs_real, abs_div, abs_div, abs_of_nonneg (norm_nonneg _),
    abs_of_nonneg (norm_nonneg _), div_div, mul_comm (norm w.toList)]

/-- The norm of the gradient, as it is computed, is the largest cosine. -/
theorem gradientNorm_spec {w : Vector ℝ m} (nonzero : norm w.toList ≠ 0) :
    let g := gradientNorm tall ((f.compute true).square tall) (f.compute true).pivots
      ((f.compute true).projected tall w) (f.compute true).norms (norm w.toList)
    (∀ x ∈ cosinesWith f.packed w, x ≤ g) ∧ (g = 0 ∨ g ∈ cosinesWith f.packed w) := by
  intro g
  have largest : g = largestCosine
      (fun j => (f.compute true).norms.get ((f.compute true).pivots.get j) == 0)
      ((f.compute true).cosine tall w (norm w.toList)) :=
    gradientNorm_of_ne (beq_eq_false_iff_ne.mpr nonzero)
  obtain ⟨bounds, attained⟩ := largestCosine_spec
    (fun j => (f.compute true).norms.get ((f.compute true).pivots.get j) == 0)
    ((f.compute true).cosine tall w (norm w.toList))
  rw [← largest] at bounds attained
  constructor
  · -- Every column has a place among the pivots, so none is missed by the order of the sum.
    rintro x ⟨l, present, rfl⟩
    obtain ⟨j, rfl⟩ := f.compute_pivots_bijective.surjective l
    rw [← f.cosine_eq_absCosine tall w j]
    refine bounds j (beq_eq_false_iff_ne.mpr ?_)
    rwa [get_compute_norms]
  · refine attained.imp_right ?_
    rintro ⟨j, present, same⟩
    rw [beq_eq_false_iff_ne, get_compute_norms] at present
    exact ⟨_, present, (f.cosine_eq_absCosine tall w j).symm.trans same⟩

end Factor

namespace State

variable {p : Problem ℝ} {tall : p.parameterCount ≤ p.residualCount} {c : Config ℝ} {s : State p}

/-- What a linearization leaves is the number it has compared with the tolerance, and it stops just
if that was within. -/
theorem linearize_gnorm (success : (s.differentiate c).failure = none) :
    (s.linearize tall c).state.gnorm =
        gradientNorm tall ((s.factored c).square tall) (s.factored c).pivots
          ((s.factored c).projected tall s.residuals) (s.factored c).norms s.fnorm ∧
      ((∃ t, s.linearize tall c = .stopped .gtolReached t) ↔
        (s.linearize tall c).state.gnorm ≤ c.gtol) := by
  rw [← tested_gnorm, linearize_of_success success]
  by_cases orthogonal : ((s.factorize tall (s.differentiate c)).1.tested tall c
      (s.factorize tall (s.differentiate c)).2).gnorm ≤ c.gtol
  · rw [testGradient_of_le orthogonal]
    exact ⟨rfl, fun _ => orthogonal, fun _ => ⟨_, rfl⟩⟩
  · rw [testGradient_of_not_le orthogonal]
    refine ⟨rfl, ?_, fun within => absurd within orthogonal⟩
    rintro ⟨t, ⟨⟩⟩

/-- Where the residuals are zero, a linearization stops. -/
theorem linearize_of_zero (gtol : 0 ≤ c.gtol) (success : (s.differentiate c).failure = none)
    (zero : s.fnorm = 0) : ∃ t, s.linearize tall c = .stopped .gtolReached t :=
  linearize_of_vanished gtol success (beq_iff_eq.mpr zero)

end State

/-- Without errors of rounding, whenever a solve has linearized residuals that are not zero, the
number that is compared with the tolerance is the largest cosine between them and a column of the
Jacobian that is not zero. It lies between zero and one, is zero if all columns are zero, and the
solve ends there, as stationary, if and only if all these cosines are within the tolerance. -/
theorem solve_cosines {p : Problem ℝ} {c : Config ℝ} {x residuals diag : Array ℝ}
    {w : Workspace ℝ} (h : Accepted p c x residuals diag w) {k : Nat} {s : State p}
    (here : h.first.run h.tall c k = .linearize s) (success : (s.differentiate c).failure = none)
    (nonzero : norm s.residuals.toList ≠ 0) :
    let jacobian := (s.differentiate c).jacobian
    let g := (s.linearize h.tall c).state.gnorm
    ((∃ l, norm (jacobian.get l).toList ≠ 0) → IsGreatest (cosinesWith jacobian s.residuals) g) ∧
      ((∀ l, norm (jacobian.get l).toList = 0) → g = 0) ∧
      0 ≤ g ∧ g ≤ 1 ∧
      ((∃ t, h.first.run h.tall c (k + 1) = .stopped .gtolReached t ∧
          solve p c x residuals diag w = .ended .gtolReached t) ↔
        ∀ l, norm (jacobian.get l).toList ≠ 0 →
          absCosine (jacobian.get l) s.residuals ≤ c.gtol) := by
  intro jacobian g
  have recorded : (Stage.linearize s).Recorded :=
    here ▸ Stage.run_recorded k (State.start_recorded ..)
  obtain ⟨computed, stops⟩ := @State.linearize_gnorm p h.tall c s success
  rw [show s.fnorm = norm s.residuals.toList from recorded.fnorm] at computed
  obtain ⟨bounds, attained⟩ := (s.unfactored (s.differentiate c)).gradientNorm_spec h.tall nonzero
  have bounds : g ∈ upperBounds (cosinesWith jacobian s.residuals) :=
    fun x member => (bounds x member).trans_eq computed.symm
  have attained : g = 0 ∨ g ∈ cosinesWith jacobian s.residuals := by
    rw [show g = _ from computed]
    exact attained
  have next : h.first.run h.tall c (k + 1) = s.linearize h.tall c := by
    rw [Stage.run_succ_last, here]
    rfl
  refine ⟨?greatest, ?none, ?nonneg, ?le_one, ?stops⟩
  case greatest =>
    rintro ⟨l, present⟩
    refine ⟨?_, bounds⟩
    rcases attained with zero | member
    · -- No cosine is negative, so a maximum of zero is attained by any of them.
      have most : absCosine (jacobian.get l) s.residuals ≤ g := bounds ⟨l, present, rfl⟩
      exact ⟨l, present, le_antisymm most (zero.trans_le (absCosine_nonneg ..))⟩
    · exact member
  case none =>
    intro none
    refine attained.resolve_right ?_
    rintro ⟨l, present, -⟩
    exact present (none l)
  case nonneg =>
    rcases attained with zero | ⟨l, -, same⟩
    · exact ge_of_eq zero
    · exact same ▸ absCosine_nonneg ..
  case le_one =>
    rcases attained with zero | ⟨l, -, same⟩
    · exact zero.trans_le zero_le_one
    · exact same ▸ absCosine_le_one ..
  case stops =>
    have within : g ≤ c.gtol ↔ ∀ l, norm (jacobian.get l).toList ≠ 0 →
        absCosine (jacobian.get l) s.residuals ≤ c.gtol := by
      constructor
      · intro within l present
        exact (bounds ⟨l, present, rfl⟩).trans within
      · intro within
        rcases attained with zero | ⟨l, present, same⟩
        · exact zero.trans_le h.gtol_nonneg
        · exact same ▸ within l present
    rw [← within, ← stops]
    constructor
    · rintro ⟨t, stopped, -⟩
      exact ⟨t, next.symm.trans stopped⟩
    · rintro ⟨t, stopped⟩
      exact ⟨t, next.trans stopped, h.solve_eq_ended (next.trans stopped)⟩

/-- The only cosine of the parameter itself is one. -/
theorem solve_cosines_identity :
    let h := Problem.scalar_accepted (fun _ x => x) 1
    ∃ s : State identity, h.first.run h.tall .default 0 = .linearize s ∧
      (s.differentiate .default).failure = none ∧ norm s.residuals.toList ≠ 0 ∧
      IsGreatest (cosinesWith (s.differentiate .default).jacobian s.residuals)
        (s.linearize h.tall .default).state.gnorm := by
  intro h
  obtain ⟨s, first, point, buffer, -, -⟩ := Problem.scalar_first h
  obtain ⟨success, -⟩ := differentiate_scalar .default s
  have nonzero : norm s.residuals.toList ≠ 0 := by
    rw [buffer]
    exact ne_of_eq_of_ne (norm_singleton 1) (by norm_num)
  obtain ⟨greatest, -⟩ := solve_cosines h (k := 0) first success nonzero
  refine ⟨s, first, success, nonzero, greatest ⟨(0 : Fin 1), fun zero => ?_⟩⟩
  exact identity_slope point buffer ((norm_eq_zero_iff _).mp zero (0 : Fin 1))

end LeastSquares
