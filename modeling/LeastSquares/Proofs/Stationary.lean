import LeastSquares.Proofs.Comparison
import LeastSquares.Proofs.Factorization
import LeastSquares.Proofs.Pivots

/-!
# Stationary iterates

A solve finds its iterate stationary if the largest cosine between the residuals and a column of the
Jacobian is within tolerance. A cosine that is not a number takes no part in that maximum. All the
others are within tolerance then, but nothing is known about its column: a solve may report that it
has converged although it could not take a single derivative.
-/
namespace LeastSquares

variable {α : Type} [Scalar α]

/-! ### Cosines -/

/-- The cosine, up to its sign, between the residuals and the column at position `j`, as it is
computed from the triangle `r`. -/
def cosine {m n : Nat} (tall : n ≤ m) (r : Columns α m n) (pivots : Vector (Fin n) n)
    (qtf norms : Vector α n) (fnorm : α) (j : Fin n) : α :=
  abs (sumWhere (· ≤ j) (fun i => r.lead tall i j * (qtf.get i / fnorm)) /
    norms.get (pivots.get j))

/-- The cosine between `w`, whose norm is `size`, and the column at position `j` of a factored
matrix. -/
def Factor.cosine {m n : Nat} (tall : n ≤ m) (f : Factor α m n) (w : Vector α m) (size : α)
    (j : Fin n) : α :=
  LeastSquares.cosine tall (f.square tall) f.pivots (f.projected tall w) f.norms size j

/-- The largest of the cosines with columns that are not zero. -/
def largestCosine {n : Nat} (zero : Fin n → Bool) (cosines : Fin n → α) : α :=
  Fin.foldl n (fun g j => if zero j then g else larger g (cosines j)) 0

theorem gradientNorm_of_ne {m n : Nat} {tall : n ≤ m} {r : Columns α m n}
    {pivots : Vector (Fin n) n} {qtf norms : Vector α n} {fnorm : α}
    (nonzero : (fnorm == 0) = false) :
    gradientNorm tall r pivots qtf norms fnorm =
      largestCosine (fun j => norms.get (pivots.get j) == 0)
        (cosine tall r pivots qtf norms fnorm) := by
  rw [gradientNorm, nonzero]
  rfl

theorem gradientNorm_of_zero {m n : Nat} {tall : n ≤ m} {r : Columns α m n}
    {pivots : Vector (Fin n) n} {qtf norms : Vector α n} {fnorm : α} (zero : (fnorm == 0) = true) :
    gradientNorm tall r pivots qtf norms fnorm = 0 :=
  if_pos zero

namespace State

variable {p : Problem α} {tall : p.parameterCount ≤ p.residualCount} {c : Config α} {s t : State p}

/-- The gradient that is tested is the one at the iterate, from the factorization just made. -/
theorem tested_gnorm (tall : p.parameterCount ≤ p.residualCount) (c : Config α) (s : State p) :
    ((s.factorize tall (s.differentiate c)).1.tested tall c
        (s.factorize tall (s.differentiate c)).2).gnorm =
      gradientNorm tall ((s.factored c).square tall) (s.factored c).pivots
        ((s.factored c).projected tall s.residuals) (s.factored c).norms s.fnorm := by
  have same := settle_same c (s.factorize tall (s.differentiate c)).2
    (s.factorize tall (s.differentiate c)).1
  obtain ⟨scaled, buffers⟩ := settle_buffers c (s.factorize tall (s.differentiate c)).2
    (s.factorize tall (s.differentiate c)).1
  simp only [tested, same.fnorm, buffers, (factorize_holds tall c s).qtf]
  rfl

/-- A linearization stops only where the gradient is within tolerance. -/
theorem gradientNorm_le_of_linearize (success : (s.differentiate c).failure = none)
    (stopped : s.linearize tall c = .stopped .gtolReached t) :
    t.fnorm = s.fnorm ∧
      gradientNorm tall ((s.factored c).square tall) (s.factored c).pivots
        ((s.factored c).projected tall s.residuals) (s.factored c).norms s.fnorm ≤ c.gtol := by
  rw [linearize_of_success success] at stopped
  rw [← tested_gnorm]
  by_cases orthogonal : ((s.factorize tall (s.differentiate c)).1.tested tall c
      (s.factorize tall (s.differentiate c)).2).gnorm ≤ c.gtol
  · rw [testGradient_of_le orthogonal] at stopped
    cases stopped
    exact ⟨(tested_same tall c _ _).fnorm, orthogonal⟩
  · rw [testGradient_of_not_le orthogonal] at stopped
    cases stopped

/-- A linearization that finds the iterate stationary stops at that iterate. -/
theorem linearize_of_stationary {s : State p} (recorded : s.Recorded)
    (success : (s.differentiate c).failure = none)
    (orthogonal : gradientNorm tall ((s.factored c).square tall) (s.factored c).pivots
      ((s.factored c).projected tall s.residuals) (s.factored c).norms s.fnorm ≤ c.gtol) :
    ∃ t, s.linearize tall c = .stopped .gtolReached t ∧ t.x = s.x ∧ t.residuals = s.residuals ∧
      t.fnorm = s.fnorm ∧ t.nfev = s.nfev + p.parameterCount ∧ t.iterations = s.iterations := by
  rw [← tested_gnorm] at orthogonal
  have same := tested_same tall c (s.factorize tall (s.differentiate c)).2
    (s.factorize tall (s.differentiate c)).1
  have taken : (s.differentiate c).Recorded p s.x s.calls :=
    s.unfilled.run_recorded recorded.nfev recorded.genuine rfl recorded.succeeded
  refine ⟨_, (linearize_of_success success).trans (testGradient_of_le orthogonal), ?_,
    same.residuals, same.fnorm, ?_, same.iterations⟩
  · exact same.x.trans (taken.succeeded success).1
  · exact same.nfev.trans (s.unfilled.run_nfev success)

/-- Where the norm of the residuals is zero, a linearization stops. -/
theorem linearize_of_vanished (gtol : 0 ≤ c.gtol) (success : (s.differentiate c).failure = none)
    (zero : (s.fnorm == 0) = true) : ∃ t, s.linearize tall c = .stopped .gtolReached t := by
  rw [linearize_of_success success]
  refine ⟨_, testGradient_of_le ?_⟩
  rwa [tested_gnorm, gradientNorm_of_zero zero]

end State

/-! ### Maxima in double precision -/

/-- The largest cosine is at least every cosine that is a number. -/
theorem le_largestCosine {n : Nat} (zero : Fin n → Bool) (cosines : Fin n → Float) (j : Fin n)
    (present : zero j = false) (number : (cosines j).isNaN = false) :
    cosines j ≤ largestCosine zero cosines := by
  have bounds : (largestCosine zero cosines).isNaN = false ∧ ∀ j : Fin n, j < n →
      zero j = false → (cosines j).isNaN = false → cosines j ≤ largestCosine zero cosines := by
    refine foldl_invariant (fun k g => g.isNaN = false ∧ ∀ j : Fin n, j < k →
      zero j = false → (cosines j).isNaN = false → cosines j ≤ g) ⟨rfl, nofun⟩ ?_
    rintro k g ⟨isNumber, before⟩
    obtain ⟨numbered, kept, taken⟩ := Double.larger_spec isNumber (cosines k)
    by_cases skipped : zero k
    · rw [if_pos skipped]
      refine ⟨isNumber, fun j inside present number => ?_⟩
      rcases Nat.lt_succ_iff_lt_or_eq.mp inside with earlier | same
      · exact before j earlier present number
      · rw [Fin.ext same, skipped] at present
        cases present
    · rw [if_neg skipped]
      refine ⟨numbered, fun j inside present number => ?_⟩
      rcases Nat.lt_succ_iff_lt_or_eq.mp inside with earlier | same
      · exact Double.le_trans (before j earlier present number) kept
      · obtain rfl : j = k := Fin.ext same
        exact taken number
  exact bounds.2 j j.isLt present number

/-- Where a gradient is within tolerance, so is every cosine with a column that is not zero, just if
it is a number. -/
theorem cosine_le_iff {m n : Nat} {tall : n ≤ m} {r : Columns Float m n} {pivots : Vector (Fin n) n}
    {qtf norms : Vector Float n} {fnorm tolerance : Float} (nonzero : (fnorm == 0) = false)
    (orthogonal : gradientNorm tall r pivots qtf norms fnorm ≤ tolerance) {j : Fin n}
    (present : (norms.get (pivots.get j) == 0) = false) :
    cosine tall r pivots qtf norms fnorm j ≤ tolerance ↔
      (cosine tall r pivots qtf norms fnorm j).isNaN = false := by
  rw [gradientNorm_of_ne nonzero] at orthogonal
  constructor
  · intro le
    exact ((Double.le_iff ..).mp le).1
  · intro number
    exact Double.le_trans (le_largestCosine _ _ j present number) orthogonal

/-- When a solve reports that its iterate is stationary, then either the residuals are zero or, of
the columns of the last Jacobian whose norms are not zero, just those have a cosine within the
tolerance whose cosine is a number. -/
theorem solve_stationary (p : Problem Float) (c : Config Float) (x residuals diag : Array Float)
    (w : Workspace Float)
    (stationary : (solve p c x residuals diag w).outcome.info = .gtolReached) :
    ∃ (h : Accepted p c x residuals diag w) (k : Nat) (s : State p),
      Stage.LinearizesLast h.tall c h.first k s ∧ (s.differentiate c).failure = none ∧
      (solve p c x residuals diag w).outcome.fnorm = s.fnorm ∧
      ((s.fnorm == 0) = true ∨ ∀ l : Fin p.parameterCount,
        (norm ((s.differentiate c).jacobian.get l).toList == 0) = false →
          ∃ j, (s.factored c).pivots.get j = l ∧
            ((s.factored c).cosine h.tall s.residuals s.fnorm j ≤ c.gtol ↔
              ((s.factored c).cosine h.tall s.residuals s.fnorm j).isNaN = false)) := by
  have h : Accepted p c x residuals diag w := by
    apply accepted_of_info_ne
    rw [stationary]
    exact nofun
  obtain ⟨k, s, info, t, last, success, -, converged, ended⟩ :=
    solve_holds h (congrArg Termination.isAbort stationary)
  rw [ended] at stationary ⊢
  obtain ⟨fnorm, orthogonal⟩ :=
    State.gradientNorm_le_of_linearize success ((converged stationary).trans (by
      rw [show info = .gtolReached from stationary]))
  refine ⟨h, k, s, last, success, fnorm, ?_⟩
  cases zero : (s.fnorm == 0) with
  | true => exact .inl rfl
  | false =>
    refine .inr fun l present => ?_
    obtain ⟨j, rfl⟩ := ((s.unfactored (s.differentiate c)).compute_pivots_bijective).surjective l
    refine ⟨j, rfl, cosine_le_iff zero orthogonal ?_⟩
    rw [← present]
    exact congrArg (· == 0) ((s.unfactored (s.differentiate c)).get_compute_norms true _)

/-- The residuals `x - 1` and `x + 1`, which no choice of `x` removes. -/
def apart : Problem Float :=
  Formula.system #[[.parameter 0, .constant 1, .binary .sub],
    [.parameter 0, .constant 1, .binary .add]] 1

/-- A small budget, and a tolerance on the cosine. -/
def loose : Config Float :=
  { limited 9 with gtol := 1e-6 }

/-- The solve of `apart` from `5` in new buffers. -/
def solveApart : Run apart :=
  solve apart loose #[5] #[0, 0] #[1] (.new 2 1)

/-- A solve that converges while its residuals are not zero. -/
theorem solve_stationary_apart :
    solveApart.outcome.info = .gtolReached ∧ (solveApart.outcome.fnorm == 0) = false ∧
      ∃ (h : Accepted apart loose #[5] #[0, 0] #[1] (.new 2 1)) (s : State apart),
        solveApart.outcome.fnorm = s.fnorm ∧ ∀ l,
          (norm ((s.differentiate loose).jacobian.get l).toList == 0) = false →
            ∃ j, (s.factored loose).pivots.get j = l ∧
              ((s.factored loose).cosine h.tall s.residuals s.fnorm j ≤ loose.gtol ↔
                ((s.factored loose).cosine h.tall s.residuals s.fnorm j).isNaN = false) := by
  have stops :
      solveApart.outcome.info = .gtolReached ∧ (solveApart.outcome.fnorm == 0) = false := by
    decide +kernel
  obtain ⟨info, nonzero⟩ := stops
  obtain ⟨h, _, s, -, -, fnorm, zero | columns⟩ :=
    solve_stationary apart loose #[5] #[0, 0] #[1] (.new 2 1) info
  · rw [← fnorm] at zero
    exact absurd (nonzero.symm.trans zero) Bool.false_ne_true
  · exact ⟨info, nonzero, h, s, fnorm, columns⟩

/-- The residuals `sqrt (-x)` and `y - 1`, the first of which exists up to zero only. -/
def edge : Problem Float :=
  Formula.system #[[.parameter 0, .unary .neg, .unary .sqrt],
    [.parameter 1, .constant 1, .binary .sub]] 2

/-- The solve of `edge` from zero in new buffers. -/
def solveEdge : Run edge :=
  solve edge (limited 4) #[0, 0] #[0, 0] #[1, 1] (.new 2 2)

/-- The state in which the solve of `edge` linearizes. -/
def edgeStart : State edge :=
  State.opened (limited 4) (.replicate 2 1) (.zeros 2 2)
    (edge.call #[] .start (.replicate 2 0) (.replicate 2 0))

/-- A solve that reports a stationary iterate although the residuals are finite and not zero, no
column of the Jacobian has the norm zero and no cosine is within tolerance: the difference in the
first parameter leaves the domain of the residuals, and no cosine is a number. -/
theorem solve_stationary_undefined :
    solveEdge.outcome.info = .gtolReached ∧ (solveEdge.outcome.fnorm == 0) = false ∧
      ∃ h : Accepted edge (limited 4) #[0, 0] #[0, 0] #[1, 1] (.new 2 2),
        Stage.LinearizesLast h.tall (limited 4) h.first 0 edgeStart ∧
        (edgeStart.differentiate (limited 4)).failure = none ∧
        ∀ j, (norm ((edgeStart.differentiate (limited 4)).jacobian.get
            ((edgeStart.factored (limited 4)).pivots.get j)).toList == 0) = false ∧
          ¬ (edgeStart.factored (limited 4)).cosine h.tall edgeStart.residuals edgeStart.fnorm j ≤
            (limited 4).gtol := by
  have stops : solveEdge.outcome.info = .gtolReached ∧ (solveEdge.outcome.fnorm == 0) = false := by
    decide +kernel
  obtain ⟨info, nonzero⟩ := stops
  have h : Accepted edge (limited 4) #[0, 0] #[0, 0] #[1, 1] (.new 2 2) :=
    accepted_of_info_ne fun refused => by cases info.symm.trans refused
  have success : (edgeStart.differentiate (limited 4)).failure = none :=
    Option.isNone_iff_eq_none.mp (by decide +kernel)
  have first : h.first = .linearize edgeStart := rfl
  have orthogonal : ((edgeStart.factorize (Nat.le_refl 2)
      (edgeStart.differentiate (limited 4))).1.tested (Nat.le_refl 2) (limited 4)
        (edgeStart.factorize (Nat.le_refl 2) (edgeStart.differentiate (limited 4))).2).gnorm ≤
          (limited 4).gtol := by
    decide +kernel
  have present : ∀ j, (norm ((edgeStart.differentiate (limited 4)).jacobian.get
      ((edgeStart.factored (limited 4)).pivots.get j)).toList == 0) = false := by
    decide +kernel
  have unbounded : ∀ j, ¬ (edgeStart.factored (limited 4)).cosine (Nat.le_refl 2)
      edgeStart.residuals edgeStart.fnorm j ≤ (limited 4).gtol := by
    decide +kernel
  have stopped := (State.linearize_of_success success).trans (State.testGradient_of_le orthogonal)
  unfold State.finish at stopped
  obtain ⟨t, second⟩ : ∃ t, h.first.run h.tall (limited 4) 1 = .stopped .gtolReached t := by
    rw [first]
    exact ⟨_, stopped⟩
  refine ⟨info, nonzero, h, ⟨first, fun i after => ?_⟩, success,
    fun j => ⟨present j, unbounded j⟩⟩
  rw [Stage.run_of_le second after]
  exact nofun

end LeastSquares
