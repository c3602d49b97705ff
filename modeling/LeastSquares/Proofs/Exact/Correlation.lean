import Mathlib
import LeastSquares.Uncertainty.Correlation
import LeastSquares.Proofs.Exact.Covariance

/-!
# Correlations of fitted parameters

Without errors of rounding the covariance of fitted parameters is positive semidefinite, whatever
the rank of the triangle. Products of its entries therefore obey the inequality of Cauchy and
Schwarz, and so its correlations are at most one and give the covariance back together with the
standard errors. This includes parameters without variance, whose correlations are set to zero.
-/
namespace LeastSquares

open Matrix

variable {m n : Nat}

/-! ### Readings of a covariance -/

section

variable (cov : Columns ℝ n n)

/-- The correlations, where `n` columns are enough for `n` rows. -/
noncomputable def correlations : Columns ℝ n n :=
  correlation (fun _ => Nat.le_refl n) cov

/-- The standard error of parameter `k`. -/
noncomputable def standardError (k : Fin n) : ℝ :=
  (standardErrors cov).get (k.cast (Nat.min_self n).symm)

theorem entry_correlations_self (i : Fin n) : (correlations cov).entry i i = 1 :=
  (Columns.entry_ofEntries ..).trans (dif_pos rfl)

/-- Where there is no variance the quotient is zero, which is what the guard sets it to. -/
theorem entry_correlations {i j : Fin n} (ne : i ≠ j) :
    (correlations cov).entry i j = cov.entry i j / √(cov.entry i i * cov.entry j j) := by
  refine (Columns.entry_ofEntries ..).trans ((dif_neg ne).trans ?_)
  change (if 0 < √(cov.entry i i * cov.entry j j) then _ else 0) = _
  split
  next => rfl
  next none => rw [le_antisymm (not_lt.mp none) (Real.sqrt_nonneg _), div_zero]

theorem standardError_eq (k : Fin n) : standardError cov k = √(cov.entry k k) := by
  refine Eq.trans (b := if 0 < cov.entry k k then √(cov.entry k k) else 0) ?_ ?_
  · simp [standardError, standardErrors, get_eq]
  · split
    next => rfl
    next none => exact (Real.sqrt_eq_zero_of_nonpos (not_lt.mp none)).symm

end

/-! ### Positive semidefinite covariances -/

section

variable {cov : Columns ℝ n n} (semidefinite : cov.matrix.PosSemidef)

include semidefinite

theorem entry_symm (i j : Fin n) : cov.entry i j = cov.entry j i :=
  semidefinite.isHermitian.apply j i

theorem variance_nonneg (i : Fin n) : 0 ≤ cov.entry i i :=
  semidefinite.diag_nonneg

/-- The minor of two parameters is not negative. -/
theorem sq_entry_le (i j : Fin n) : cov.entry i j ^ 2 ≤ cov.entry i i * cov.entry j j := by
  have minor := (semidefinite.submatrix ![i, j]).det_nonneg
  rw [det_fin_two] at minor
  change 0 ≤ cov.entry i i * cov.entry j j - cov.entry i j * cov.entry j i at minor
  rw [entry_symm semidefinite j i] at minor
  rw [pow_two]
  exact sub_nonneg.mp minor

theorem sq_standardError (i : Fin n) : standardError cov i ^ 2 = cov.entry i i := by
  rw [standardError_eq, Real.sq_sqrt (variance_nonneg semidefinite i)]

theorem correlations_symm (i j : Fin n) :
    (correlations cov).entry i j = (correlations cov).entry j i := by
  by_cases same : i = j
  · rw [same]
  · rw [entry_correlations cov same, entry_correlations cov (Ne.symm same),
      entry_symm semidefinite i j, mul_comm]

theorem abs_correlations_le (i j : Fin n) : |(correlations cov).entry i j| ≤ 1 := by
  by_cases same : i = j
  · rw [same, entry_correlations_self, abs_one]
  · rw [entry_correlations cov same, abs_div, abs_of_nonneg (Real.sqrt_nonneg _)]
    exact div_le_one_of_le₀ (Real.abs_le_sqrt (sq_entry_le semidefinite i j)) (Real.sqrt_nonneg _)

/-- Correlations and standard errors give the covariance back. -/
theorem correlations_mul (i j : Fin n) : cov.entry i j =
    (correlations cov).entry i j * standardError cov i * standardError cov j := by
  by_cases same : i = j
  · rw [same, entry_correlations_self, one_mul, ← pow_two, sq_standardError semidefinite]
  · have product : √(cov.entry i i * cov.entry j j) =
        standardError cov i * standardError cov j := by
      rw [standardError_eq, standardError_eq, Real.sqrt_mul (variance_nonneg semidefinite i)]
    rw [entry_correlations cov same, mul_assoc, ← product]
    refine (div_mul_cancel_of_imp fun none => ?_).symm
    -- Without one of the variances there is no covariance.
    have bound := Real.abs_le_sqrt (sq_entry_le semidefinite i j)
    rw [none] at bound
    exact abs_nonpos_iff.mp bound

end

/-- A parameter without variance is correlated with no other. -/
theorem correlations_eq_zero {cov : Columns ℝ n n} {i j : Fin n} (ne : i ≠ j)
    (none : cov.entry i i = 0 ∨ cov.entry j j = 0) : (correlations cov).entry i j = 0 := by
  rw [entry_correlations cov ne, mul_eq_zero.mpr none, Real.sqrt_zero, div_zero]

/-! ### The covariance of fitted parameters -/

theorem Columns.gramInverse_posSemidef {tall : n ≤ m} {pivots : Vector (Fin n) n}
    (permutation : Function.Bijective pivots.get) (r : Columns ℝ m n) (tol : ℝ) :
    (Matrix.of ((r.gramInverse tall pivots tol).1.lead tall)).PosSemidef := by
  have product := gramInverse_submatrix tall permutation.injective r tol
  refine (posSemidef_submatrix_equiv (.ofBijective pivots.get permutation)).mp ?_
  refine (congrArg PosSemidef product).mpr ?_
  rw [← conjTranspose_eq_transpose_of_trivial]
  exact posSemidef_self_mul_conjTranspose _

/-- Only the leading square block is read. -/
theorem covariance_block (tall : n ≤ m) (r : Columns ℝ m n) (pivots : Vector (Fin n) n)
    (variance : ℝ) : covariance tall r pivots variance =
      covariance (Nat.le_refl n) (.ofEntries (r.lead tall)) pivots variance := by
  have block : Columns.ofEntries (Columns.lead (.ofEntries (r.lead tall)) (Nat.le_refl n)) =
      Columns.ofEntries (r.lead tall) :=
    Columns.eq_of_entry_eq fun i j => Columns.entry_ofEntries ..
  simp only [covariance, block]

theorem covariance_posSemidef (tall : n ≤ m) (r : Columns ℝ m n) {pivots : Vector (Fin n) n}
    (permutation : Function.Bijective pivots.get) {variance : ℝ} (nonneg : 0 ≤ variance) :
    (covariance tall r pivots variance).matrix.PosSemidef := by
  rw [covariance_block, covariance_matrix]
  exact (Columns.gramInverse_posSemidef permutation _ _).smul nonneg

/-- The covariance of fitted parameters is positive semidefinite, and the standard errors are the
roots of its diagonal. The correlations are symmetric, one on the diagonal, at most one elsewhere
and zero for a parameter without variance. With the standard errors they give the covariance
back. -/
theorem covariance_correlations (tall : n ≤ m) (r : Columns ℝ m n) {pivots : Vector (Fin n) n}
    (permutation : Function.Bijective pivots.get) {variance : ℝ} (nonneg : 0 ≤ variance) :
    let cov := covariance tall r pivots variance
    let correl := correlations cov
    let error := standardError cov
    cov.matrix.PosSemidef ∧ (∀ i, 0 ≤ cov.entry i i) ∧
    (∀ i, 0 ≤ error i ∧ error i ^ 2 = cov.entry i i) ∧
    (∀ i j, correl.entry i j = correl.entry j i) ∧ (∀ i, correl.entry i i = 1) ∧
    (∀ i j, correl.entry i j ∈ Set.Icc (-1) 1) ∧
    (∀ i j, i ≠ j → cov.entry i i = 0 ∨ cov.entry j j = 0 → correl.entry i j = 0) ∧
    ∀ i j, cov.entry i j = correl.entry i j * error i * error j := by
  intro cov correl error
  have semidefinite : cov.matrix.PosSemidef := covariance_posSemidef tall r permutation nonneg
  refine ⟨semidefinite, variance_nonneg semidefinite, fun i => ⟨?_, ?_⟩,
    correlations_symm semidefinite, entry_correlations_self cov,
    fun i j => abs_le.mp (abs_correlations_le semidefinite i j),
    fun i j ne none => correlations_eq_zero ne none, correlations_mul semidefinite⟩
  · exact (Real.sqrt_nonneg _).trans_eq (standardError_eq cov i).symm
  · exact sq_standardError semidefinite i

/-- Of two parameters the first depends on the second: it has neither variance nor correlation. -/
theorem covariance_correlations_deficient :
    let pivots : Vector (Fin 2) 2 := #v[1, 0]
    let cov := covariance (Nat.le_refl 2) #v[#v[2, 7], #v[3, 0]] pivots 4
    Function.Bijective pivots.get ∧ (0 : ℝ) ≤ 4 ∧ cov.matrix.PosSemidef ∧
      (correlations cov).entry 0 1 = 0 ∧ standardError cov 0 = 0 ∧ cov.entry 0 1 = 0 := by
  intro pivots cov
  let r : Columns ℝ 2 2 := #v[#v[2, 7], #v[3, 0]]
  have permutation : Function.Bijective pivots.get := by decide
  have nonneg : (0 : ℝ) ≤ 4 := by norm_num
  obtain ⟨semidefinite, -, squares, -, -, -, zeros, products⟩ :=
    covariance_correlations (Nat.le_refl 2) r permutation nonneg
  have deficient : r.leadingRank (Nat.le_refl 2) rankTolerance ≤ 1 := by
    refine not_lt.mp fun inside => ?_
    have large := Columns.lt_leadingRank_iff (r := r) (k := (1 : Fin 2)) |>.mp inside 1 le_rfl
    have zero : r.lead (Nat.le_refl 2) 1 1 = 0 := rfl
    rw [zero, abs_zero] at large
    exact absurd large (not_lt.mpr (mul_nonneg rankTolerance_nonneg (abs_nonneg _)))
  have variance : cov.entry 0 0 = 0 := by
    have none := Columns.lead_gramInverse_of_rank_le (Nat.le_refl 2) permutation.injective r
      rankTolerance (i := 1) (j := 1) (.inl deficient)
    have place : pivots.get 1 = 0 := rfl
    rw [place] at none
    change cov.matrix 0 0 = 0
    rw [covariance_matrix, Matrix.smul_apply, of_apply, none, smul_zero]
  have uncorrelated := zeros 0 1 (by decide) (.inl variance)
  have error := pow_eq_zero_iff two_ne_zero |>.mp ((squares 0).2.trans variance)
  refine ⟨permutation, nonneg, semidefinite, uncorrelated, error, (products 0 1).trans ?_⟩
  rw [uncorrelated, zero_mul, zero_mul]

end LeastSquares
