import LeastSquares.Proofs.Exact.NormalEquations

/-!
# Substituting forwards

A search solves two transposed triangular systems, one of `R` and one of the damped triangle `S`,
and uses nothing of the solutions but their lengths. Without errors of rounding these depend on the
right-hand side and on the products of the columns of the triangle, not on the triangle itself.
-/
namespace LeastSquares

open Matrix

variable {m n : Nat} {tall : n ≤ m}

/-! ### Products of columns -/

/-- Matrices whose columns have the same products see vectors at the same length. -/
theorem mulVec_dot_of_gram {k : Nat} {a a' : Matrix (Fin k) (Fin n) ℝ} (gram : a'ᵀ * a' = aᵀ * a)
    (u : Fin n → ℝ) : (a' *ᵥ u) ⬝ᵥ (a' *ᵥ u) = (a *ᵥ u) ⬝ᵥ (a *ᵥ u) := by
  have square (b : Matrix (Fin k) (Fin n) ℝ) : (b *ᵥ u) ⬝ᵥ (b *ᵥ u) = u ⬝ᵥ ((bᵀ * b) *ᵥ u) := by
    rw [← mulVec_mulVec, dotProduct_mulVec u, vecMul_transpose]
  rw [square, square, gram]

theorem mulVec_eq_zero_of_gram {k : Nat} {a : Matrix (Fin k) (Fin n) ℝ} {u : Fin n → ℝ}
    (zero : (aᵀ * a) *ᵥ u = 0) : a *ᵥ u = 0 := by
  rw [← dotProduct_self_eq_zero, dotProduct_mulVec, ← mulVec_transpose, mulVec_mulVec, zero,
    zero_dotProduct]

/-- So do their transposed systems, if they can be solved: the solutions for one right-hand side
have one length. -/
theorem dot_of_gram {a a' : Matrix (Fin n) (Fin n) ℝ} (unit : IsUnit a) (unit' : IsUnit a')
    (gram : a'ᵀ * a' = aᵀ * a) {y y' : Fin n → ℝ} (same : a'ᵀ *ᵥ y' = aᵀ *ᵥ y) :
    y' ⬝ᵥ y' = y ⬝ᵥ y := by
  obtain ⟨u, rfl⟩ := (mulVec_surjective_iff_isUnit.mpr unit) y
  -- The other solution is the image of the same vector.
  have image : y' = a' *ᵥ u := by
    refine (mulVec_injective_iff_isUnit.mpr (a'.isUnit_transpose.mpr unit')) ?_
    rw [same, mulVec_mulVec, mulVec_mulVec, gram]
  rw [image, mulVec_dot_of_gram gram]

theorem norm_eq_of_dot {v w : Vector ℝ n} (same : v.get ⬝ᵥ v.get = w.get ⬝ᵥ w.get) :
    norm v.toList = norm w.toList := by
  rw [← norm_sq, ← norm_sq] at same
  exact (sq_eq_sq₀ (norm_nonneg v) (norm_nonneg w)).mp same

/-! ### Triangles -/

/-- A sum up to `i` ends with the summand of `i`. -/
theorem sum_to (f : Fin n → ℝ) (i : Fin n) : ∑ l with l ≤ i, f l = ∑ l with l < i, f l + f i := by
  have split : (Finset.univ.filter fun l : Fin n => l ≤ i) =
      insert i (Finset.univ.filter fun l : Fin n => l < i) := by
    ext l
    simp only [Finset.mem_filter, Finset.mem_univ, true_and, Finset.mem_insert]
    exact le_iff_eq_or_lt
  rw [split, Finset.sum_insert (by simp), add_comm]

/-- A triangle maps a vector to zero only if it has a zero on its diagonal where the vector has
none. -/
theorem eq_zero_of_triangle {a : Matrix (Fin n) (Fin n) ℝ} {u : Fin n → ℝ}
    (triangle : ∀ i j, j < i → a i j = 0) (zero : a *ᵥ u = 0)
    (diagonal : ∀ j, u j ≠ 0 → a j j ≠ 0) : u = 0 := by
  funext j
  -- From the last row up.
  induction j using WellFoundedGT.induction with
  | ind j later =>
    by_contra nonzero
    have row : ∑ i, a j i * u i = 0 := congrFun zero j
    rw [Finset.sum_eq_single_of_mem j (Finset.mem_univ j)] at row
    · exact mul_ne_zero (diagonal j nonzero) nonzero row
    · intro i _ other
      rcases lt_or_gt_of_ne other with before | after
      · rw [triangle j i before, zero_mul]
      · rw [later i after, Pi.zero_apply, mul_zero]

namespace Triangular

/-! ### Row by row -/

/-- Before unknown `k` of `Rᵀ y = w` is found. -/
structure Forwarded (tall : n ≤ m) (s : Triangular ℝ m n) (w : Vector ℝ n) (k : Nat)
    (y : Vector ℝ n) : Prop where
  found : ∀ i : Fin n, i.val < k → ∑ l with l ≤ i, s.r.lead tall l i * y.get l = w.get i
  ahead : ∀ i : Fin n, k ≤ i.val → y.get i = w.get i

theorem Forwarded.find {s : Triangular ℝ m n} {w : Vector ℝ n} {k : Fin n} {y : Vector ℝ n}
    (h : s.Forwarded tall w k y) (nonzero : s.r.lead tall k k ≠ 0) :
    s.Forwarded tall w (k + 1) (overwriteAt y k
      ((y.get k - ∑ l with l < k, s.r.lead tall l k * y.get l) / s.r.lead tall k k)) := by
  set x := (y.get k - ∑ l with l < k, s.r.lead tall l k * y.get l) / s.r.lead tall k k with x_eq
  have other {i : Fin n} (ne : k ≠ i) : (overwriteAt y k x).get i = y.get i := by
    rw [get_overwriteAt, if_neg ne]
  have earlier (i : Fin n) (p : Fin n → Prop) [DecidablePred p] (before : ∀ l, p l → l < k) :
      ∑ l with p l, s.r.lead tall l i * (overwriteAt y k x).get l =
        ∑ l with p l, s.r.lead tall l i * y.get l := by
    refine Finset.sum_congr rfl fun l member => ?_
    rw [other (ne_of_gt (before l (Finset.mem_filter.mp member).2))]
  exact {
    found := fun i done => by
      rcases Nat.lt_succ_iff_lt_or_eq.mp done with before | here
      · rw [earlier i (· ≤ i) fun l le => lt_of_le_of_lt le before]
        exact h.found i before
      · obtain rfl : i = k := Fin.ext here
        rw [sum_to, earlier i (· < i) fun l lt => lt, get_overwriteAt, if_pos rfl, x_eq,
          mul_div_cancel₀ _ nonzero, h.ahead i le_rfl]
        ring
    ahead := fun i after => by
      rw [other (by rintro rfl; omega)]
      exact h.ahead i (by omega) }

/-- Substituting forwards solves `Rᵀ y = w`. -/
theorem forwardSubstitute_solves {s : Triangular ℝ m n} (nonzero : ∀ j, s.r.lead tall j j ≠ 0)
    (w : Vector ℝ n) :
    (s.r.upper tall)ᵀ *ᵥ (s.forwardSubstitute tall w).get = w.get := by
  have forwarded : s.Forwarded tall w n (s.forwardSubstitute tall w) := by
    refine foldl_invariant (fun k y => s.Forwarded tall w k y)
      ⟨fun _ none => absurd none (Nat.not_lt_zero _), fun _ _ => rfl⟩ ?_
    intro k y now
    dsimp only
    rw [sumWhere_real]
    exact now.find (nonzero k)
  ext i
  rw [← forwarded.found i i.isLt]
  exact sum_masked (· ≤ i) ..

/-! ### Column by column -/

/-- Before unknown `k` of `Sᵀ y = w` is found: what the unknowns before it take of the right-hand
sides of the others has been subtracted. -/
structure Eliminated (tall : n ≤ m) (r : Columns ℝ m n) (sdiag w : Vector ℝ n) (k : Nat)
    (y : Vector ℝ n) : Prop where
  found : ∀ i : Fin n, i.val < k →
    ∑ l with l < i, r.lead tall i l * y.get l + sdiag.get i * y.get i = w.get i
  ahead : ∀ i : Fin n, k ≤ i.val →
    ∑ l with l.val < k, r.lead tall i l * y.get l + y.get i = w.get i

theorem Eliminated.find {r : Columns ℝ m n} {sdiag w : Vector ℝ n} {k : Fin n} {y : Vector ℝ n}
    (h : Eliminated tall r sdiag w k y) (nonzero : sdiag.get k ≠ 0) :
    Eliminated tall r sdiag w (k + 1)
      (overwriteWhere (overwriteAt y k (y.get k / sdiag.get k)) (k < ·)
        fun i => y.get i - r.lead tall i k * (y.get k / sdiag.get k)) := by
  set x := y.get k / sdiag.get k with x_eq
  set y' := overwriteWhere (overwriteAt y k x) (k < ·) fun i => y.get i - r.lead tall i k * x
    with y'_eq
  have after {i : Fin n} (lt : k < i) : y'.get i = y.get i - r.lead tall i k * x := by
    rw [y'_eq, get_overwriteWhere, if_pos lt]
  have here : y'.get k = x := by
    rw [y'_eq, get_overwriteWhere, if_neg (lt_irrefl k), get_overwriteAt, if_pos rfl]
  have before {i : Fin n} (lt : i < k) : y'.get i = y.get i := by
    rw [y'_eq, get_overwriteWhere, if_neg (not_lt_of_gt lt), get_overwriteAt, if_neg (ne_of_gt lt)]
  have earlier (i j : Fin n) (le : j ≤ k) : ∑ l with l < j, r.lead tall i l * y'.get l =
      ∑ l with l < j, r.lead tall i l * y.get l := by
    refine Finset.sum_congr rfl fun l member => ?_
    rw [before (lt_of_lt_of_le (Finset.mem_filter.mp member).2 le)]
  exact {
    found := fun i done => by
      rcases Nat.lt_succ_iff_lt_or_eq.mp done with lt | same
      · rw [earlier i i (le_of_lt lt), before lt]
        exact h.found i lt
      · obtain rfl : i = k := Fin.ext same
        rw [earlier i i le_rfl, here, x_eq, mul_div_cancel₀ _ nonzero]
        exact h.ahead i le_rfl
    ahead := fun i lt => by
      have lt : k < i := lt
      have taken : ∑ l with l.val < k.val + 1, r.lead tall i l * y'.get l =
          ∑ l with l.val < k.val, r.lead tall i l * y.get l + r.lead tall i k * x := by
        have upTo := sum_to (fun l => r.lead tall i l * y'.get l) k
        rw [earlier i k le_rfl, here] at upTo
        exact (Finset.sum_congr (Finset.filter_congr fun l _ => Nat.lt_succ_iff) fun _ _ =>
          rfl).trans upTo
      rw [taken, after lt]
      linarith [h.ahead i (le_of_lt lt)] }

/-- Substituting forwards solves `Sᵀ y = w`. -/
theorem solveDampedTranspose_solves (r : Columns ℝ m n) {sdiag : Vector ℝ n}
    (nonzero : ∀ j, sdiag.get j ≠ 0) (w : Vector ℝ n) (i : Fin n) :
    ∑ l with l < i, r.lead tall i l * (solveDampedTranspose tall r sdiag w).get l +
      sdiag.get i * (solveDampedTranspose tall r sdiag w).get i = w.get i := by
  have eliminated : Eliminated tall r sdiag w n (solveDampedTranspose tall r sdiag w) := by
    refine foldl_invariant (fun k y => Eliminated tall r sdiag w k y)
      ⟨fun _ none => absurd none (Nat.not_lt_zero _), fun i _ => by simp⟩ ?_
    intro k y now
    exact now.find (nonzero k)
  exact eliminated.found i i.isLt

end Triangular

end LeastSquares
