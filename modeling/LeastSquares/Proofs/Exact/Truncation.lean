import LeastSquares.Proofs.Exact.NormalEquations

/-!
# Damped systems of any rank

Whatever the rank of the triangle `R` and whichever entries of the damping are zero, a damped solve
returns a triangle `S` with `Sᵀ S = Rᵀ R + Pᵀ D² P`. If there is a zero on its diagonal, the system
is cut off there: the unknowns from the first zero on are zero, and the others satisfy the leading
block of the normal equations. If there is none, the solution satisfies the damped normal equations
of every system that `R`, the pivots and the right-hand sides come from.
-/
namespace LeastSquares

open Matrix

variable {m n : Nat} {tall : n ≤ m}

/-- The triangle `S`: its diagonal has been kept aside, and the rest lies transposed below that of
`R`. -/
def DampedSolution.triangle (tall : n ≤ m) (d : DampedSolution ℝ m n) :
    Matrix (Fin n) (Fin n) ℝ :=
  .of fun l i => if l < i then d.r.lead tall i l else if l = i then d.sdiag.get l else 0

theorem DampedSolution.rank_le (d : DampedSolution ℝ m n) : d.rank ≤ n :=
  firstIndex_le _

namespace Triangular

variable (s : Triangular ℝ m n) (diag x sdiag permuted : Vector ℝ n)

/-! ### Permutations -/

/-- The matrix `P` that brings the columns of a matrix in the order of the pivots. -/
def permutation : Matrix (Fin n) (Fin n) ℝ :=
  (1 : Matrix (Fin n) (Fin n) ℝ).submatrix id s.pivots.get

theorem mul_permutation {k : Nat} (a : Matrix (Fin k) (Fin n) ℝ) :
    a * s.permutation = a.submatrix id s.pivots.get :=
  mul_pivoting s.pivots a

theorem permutation_transpose_mul {k : Nat} (a : Matrix (Fin n) (Fin k) ℝ) :
    s.permutationᵀ * a = a.submatrix s.pivots.get id :=
  pivoting_transpose_mul s.pivots a

/-- `Rᵀ R + Pᵀ D² P`. -/
noncomputable def dampedGram (tall : n ≤ m) : Matrix (Fin n) (Fin n) ℝ :=
  (s.r.upper tall)ᵀ * s.r.upper tall + s.permutationᵀ * diagonal diag.get ^ 2 * s.permutation

theorem dampedGram_eq : s.dampedGram diag tall = (s.r.upper tall)ᵀ * s.r.upper tall +
    (diagonal diag.get ^ 2).submatrix s.pivots.get s.pivots.get := by
  rw [dampedGram, permutation_transpose_mul, mul_permutation, submatrix_submatrix]
  rfl

/-! ### The triangle -/

/-- The rotations leave `S` where a solve hands it back. -/
theorem damped_triangle : (s.damped tall diag x sdiag permuted).triangle tall =
    below tall (s.absorbed tall diag s.qtb).1 := by
  ext l i
  change (if l < i then _ else if l = i then _ else 0) = if l ≤ i then _ else 0
  rcases lt_trichotomy l i with above | rfl | below
  · rw [if_pos above, if_pos (le_of_lt above)]
    simp only [damped, overwrite_get, Columns.lead_withDiagonal]
    exact if_neg (ne_of_gt above)
  · rw [if_neg (lt_irrefl l), if_pos rfl, if_pos le_rfl, get_damped_sdiag]
  · rw [if_neg (not_lt_of_gt below), if_neg (ne_of_gt below), if_neg (not_le.mpr below)]

theorem damped_gram (apart : Function.Injective s.pivots.get) :
    ((s.damped tall diag x sdiag permuted).triangle tall)ᵀ *
      (s.damped tall diag x sdiag permuted).triangle tall = s.dampedGram diag tall := by
  rw [damped_triangle, absorbed_gram, dampedGram_eq, diagonal_pow, submatrix_diagonal _ _ apart]
  rfl

/-! ### The solution -/

/-- The unknowns of the leading block satisfy the normal equations. -/
theorem damped_leading (apart : Function.Injective s.pivots.get) {i : Fin n}
    (inside : i < (s.damped tall diag x sdiag permuted).rank) :
    (s.dampedGram diag tall *ᵥ (s.damped tall diag x sdiag permuted).permuted.get) i =
      ((s.r.upper tall)ᵀ *ᵥ s.qtb.get) i := by
  -- Both sides are products with `Sᵀ`, whose row `i` meets no row past `i`.
  set z := (s.damped tall diag x sdiag permuted).permuted.get
  set w := (s.absorbed tall diag s.qtb).2.get
  rw [← s.damped_gram diag x sdiag permuted apart, ← @absorbed_rhs m n tall s diag,
    damped_triangle, ← mulVec_mulVec]
  set a := (s.absorbed tall diag s.qtb).1
  change ∑ l, below tall a l i * (below tall a *ᵥ z) l = ∑ l, below tall a l i * w l
  refine Finset.sum_congr rfl fun l _ => ?_
  rcases lt_or_ge i l with lower | upper
  · rw [show below tall a l i = 0 from if_neg (not_le.mpr lower), zero_mul, zero_mul]
  · -- Row `l` belongs to the leading block as well.
    have row := s.damped_row diag x sdiag permuted (lt_of_le_of_lt upper inside)
    rw [show w l = _ from row.symm]
    exact congrArg _ (sum_masked (l ≤ ·) ..)

/-- Nothing of the solution is left out of a product with the leading block. -/
theorem leading_mulVec {k : Nat} (le : k ≤ n) (a : Matrix (Fin n) (Fin n) ℝ) {z : Fin n → ℝ}
    (zeros : ∀ j : Fin n, k ≤ j.val → z j = 0) (i : Fin k) :
    (a.submatrix (Fin.castLE le) (Fin.castLE le) *ᵥ (z ∘ Fin.castLE le)) i =
      (a *ᵥ z) (i.castLE le) := by
  have head := sum_head le (f := fun j => a (i.castLE le) j * z j) fun j past => by
    rw [zeros j past, mul_zero]
  exact head.symm

/-- Normal equations in the order of the pivots are normal equations in the original order. -/
theorem normal_of_permuted {k : Nat} {s : Triangular ℝ m n} {diag : Vector ℝ n}
    {q a : Matrix (Fin k) (Fin n) ℝ} {b : Fin k → ℝ} {x : Fin n → ℝ}
    (permutation : Function.Bijective s.pivots.get) (orthonormal : qᵀ * q = 1)
    (factored : a * s.permutation = q * s.r.upper tall) (projected : qᵀ *ᵥ b = s.qtb.get)
    (solved : s.dampedGram diag tall *ᵥ (x ∘ s.pivots.get) = (s.r.upper tall)ᵀ *ᵥ s.qtb.get) :
    (aᵀ * a + diagonal diag.get ^ 2) *ᵥ x = aᵀ *ᵥ b := by
  rw [mul_permutation] at factored
  have gram : (aᵀ * a).submatrix s.pivots.get s.pivots.get =
      (s.r.upper tall)ᵀ * s.r.upper tall := by
    calc (aᵀ * a).submatrix s.pivots.get s.pivots.get
        = (a.submatrix id s.pivots.get)ᵀ * a.submatrix id s.pivots.get := rfl
      _ = (s.r.upper tall)ᵀ * (qᵀ * q) * s.r.upper tall := by
        rw [factored, transpose_mul, Matrix.mul_assoc, Matrix.mul_assoc, Matrix.mul_assoc]
      _ = _ := by rw [orthonormal, Matrix.mul_one]
  have gradient : (aᵀ *ᵥ b) ∘ s.pivots.get = (s.r.upper tall)ᵀ *ᵥ s.qtb.get := by
    calc (aᵀ *ᵥ b) ∘ s.pivots.get
        = (a.submatrix id s.pivots.get)ᵀ *ᵥ b := rfl
      _ = (s.r.upper tall)ᵀ *ᵥ (qᵀ *ᵥ b) := by
        rw [factored, transpose_mul, mulVec_mulVec]
      _ = _ := by rw [projected]
  have permuted : ((aᵀ * a + diagonal diag.get ^ 2) *ᵥ x) ∘ s.pivots.get =
      (aᵀ *ᵥ b) ∘ s.pivots.get := by
    rw [← submatrix_mulVec_comp permutation, submatrix_add, Pi.add_apply, Pi.add_apply, gram,
      ← dampedGram_eq, solved, gradient]
  exact permutation.surjective.injective_comp_right permuted

/-- Without errors of rounding, whatever the triangle `R`, the damping `D` and the right-hand sides,
zeros included: a damped solve returns an upper triangle `S` with `Sᵀ S = Rᵀ R + Pᵀ D² P`. From the
first zero on the diagonal of `S` on, the solution in pivoted order is zero, and the unknowns before
it satisfy the leading block of the normal equations. If there is no zero, the solution satisfies
the damped normal equations of every system `A x = b` of which `R` and the right-hand sides are the
factorization. -/
theorem damped_truncated (tall : n ≤ m) (s : Triangular ℝ m n)
    (permutation : Function.Bijective s.pivots.get) (diag x sdiag permuted : Vector ℝ n) :
    let done := s.damped tall diag x sdiag permuted
    let R := s.r.upper tall
    let S := done.triangle tall
    let P := s.permutation
    let G := Rᵀ * R + Pᵀ * diagonal diag.get ^ 2 * P
    let z := done.x.get ∘ s.pivots.get
    let leading : Fin done.rank → Fin n := Fin.castLE done.rank_le
    S.BlockTriangular id ∧ Sᵀ * S = G ∧ (∀ j : Fin n, done.rank ≤ j.val → z j = 0) ∧
      G.submatrix leading leading *ᵥ (z ∘ leading) = (Rᵀ *ᵥ s.qtb.get) ∘ leading ∧
      (done.rank = n → ∀ {k : Nat} (Q A : Matrix (Fin k) (Fin n) ℝ) (b : Fin k → ℝ),
        Qᵀ * Q = 1 → A * P = Q * R → Qᵀ *ᵥ b = s.qtb.get →
          (Aᵀ * A + diagonal diag.get ^ 2) *ᵥ done.x.get = Aᵀ *ᵥ b) := by
  intro done R S P G z leading
  have order : z = done.permuted.get :=
    funext fun j => get_scatter permutation.injective ..
  have zeros (j : Fin n) (past : done.rank ≤ j.val) : z j = 0 := by
    rw [order]
    exact (s.damped_substituted tall diag x sdiag permuted).zeros j past
  have solved (i : Fin n) (inside : i.val < done.rank) : (G *ᵥ z) i = (Rᵀ *ᵥ s.qtb.get) i := by
    rw [order]
    exact s.damped_leading diag x sdiag permuted permutation.injective inside
  refine ⟨fun l i below => ?_, s.damped_gram diag x sdiag permuted permutation.injective, zeros,
    funext fun i => ?_, fun full k Q A b orthonormal factored projected => ?_⟩
  · have below : i < l := below
    exact (if_neg (not_lt_of_gt below)).trans (if_neg (ne_of_gt below))
  · rw [leading_mulVec done.rank_le G zeros]
    exact solved _ i.isLt
  · exact normal_of_permuted permutation orthonormal factored projected
      (funext fun i => solved i (full.symm ▸ i.isLt))

/-- A triangle with a column of zeros, in exchanged order. What lies below the diagonal is no part
of it. -/
noncomputable def deficient : Triangular ℝ 2 2 :=
  { r := #v[#v[5, 7], .replicate 2 0], pivots := #v[1, 0], qtb := #v[1, 9] }

/-- If the column of zeros is not damped, its unknown is cut off. -/
theorem damped_truncated_deficient :
    Function.Bijective deficient.pivots.get ∧
      (deficient.damped (Nat.le_refl 2) #v[0, 3] #v[0, 0] #v[0, 0] #v[0, 0]).x.get 0 = 0 := by
  have bijective : Function.Bijective deficient.pivots.get := by
    change Function.Bijective (#v[1, 0] : Vector (Fin 2) 2).get
    decide
  obtain ⟨-, gram, zeros, -⟩ := damped_truncated (Nat.le_refl 2) deficient bijective #v[0, 3]
    #v[0, 0] #v[0, 0] #v[0, 0]
  set done := deficient.damped (Nat.le_refl 2) #v[0, 3] #v[0, 0] #v[0, 0] #v[0, 0]
  have column (i : Fin 2) : deficient.r.upper (Nat.le_refl 2) i 1 = 0 := by
    fin_cases i <;> rfl
  have undamped : diagonal (#v[(0 : ℝ), 3].get ^ 2) (deficient.pivots.get 1)
      (deficient.pivots.get 1) = 0 :=
    (diagonal_apply_eq ..).trans (zero_pow two_ne_zero)
  -- Column `1` of `S` has no length, so its diagonal entry is zero however `S` has been computed.
  have corner : done.triangle (Nat.le_refl 2) 0 1 ^ 2 + done.sdiag.get 1 ^ 2 = 0 := by
    have entry := congrFun (congrFun gram 1) 1
    rw [permutation_transpose_mul, mul_permutation, diagonal_pow, Matrix.add_apply, mul_apply,
      mul_apply, Fin.sum_univ_two, Fin.sum_univ_two, column, column, mul_zero, mul_zero, add_zero,
      zero_add] at entry
    rw [pow_two, pow_two]
    exact entry.trans undamped
  have last : done.sdiag.get 1 = 0 := pow_eq_zero_iff two_ne_zero |>.mp
    ((add_eq_zero_iff_of_nonneg (sq_nonneg _) (sq_nonneg _)).mp corner).2
  refine ⟨bijective, zeros 1 (not_lt.mp fun inside => ?_)⟩
  have nonzero : (done.sdiag.get 1 == 0) = false := eq_false_of_lt_firstIndex inside
  exact beq_eq_false_iff_ne.mp nonzero last

end Triangular

end LeastSquares
