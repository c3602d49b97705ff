import LeastSquares.Proofs.Exact.Resemblance

/-!
# The length of a damped solution

The solution `y` of `(Bᵀ B + a) y = g` gets shorter as the damping `a` grows, and takes on every
length that is shorter than that of the undamped one. The reciprocal of its length is a concave
function of the damping, so a Newton correction for it never goes beyond the damping sought.
-/
namespace LeastSquares

open Matrix

variable {k n : Nat}

/-! ### Lengths -/

theorem dot_self_nonneg (v : Fin n → ℝ) : 0 ≤ v ⬝ᵥ v :=
  Finset.sum_nonneg fun _ _ => mul_self_nonneg _

theorem dot_le_norm (u v : Vector ℝ n) : u.get ⬝ᵥ v.get ≤ norm u.toList * norm v.toList := by
  have squares := Finset.sum_mul_sq_le_sq_mul_sq Finset.univ u.get v.get
  refine le_of_sq_le_sq ?_ (mul_nonneg (norm_nonneg u) (norm_nonneg v))
  rw [norm_real, norm_real, ← Real.sqrt_mul (Finset.sum_nonneg fun _ _ => sq_nonneg _),
    Real.sq_sqrt (mul_nonneg (Finset.sum_nonneg fun _ _ => sq_nonneg _)
      (Finset.sum_nonneg fun _ _ => sq_nonneg _))]
  exact squares

theorem norm_pos_of_ne {v : Vector ℝ n} (some : v.get ≠ 0) : 0 < norm v.toList :=
  lt_of_le_of_ne (norm_nonneg v) fun zero => some (funext ((norm_eq_zero_iff v).mp zero.symm))

theorem direction_dot {v : Vector ℝ n} (some : 0 < norm v.toList) :
    ((norm v.toList)⁻¹ • v.get) ⬝ᵥ v.get = norm v.toList := by
  rw [smul_dotProduct, ← norm_sq, smul_eq_mul, pow_two, inv_mul_cancel_left₀ (ne_of_gt some)]

theorem direction_dot_self {v : Vector ℝ n} (some : 0 < norm v.toList) :
    ((norm v.toList)⁻¹ • v.get) ⬝ᵥ ((norm v.toList)⁻¹ • v.get) = 1 := by
  rw [dotProduct_smul, direction_dot some, smul_eq_mul, inv_mul_cancel₀ (ne_of_gt some)]

/-! ### Damped matrices -/

/-- `Bᵀ B + a`. -/
def ridge (b : Matrix (Fin k) (Fin n) ℝ) (a : ℝ) : Matrix (Fin n) (Fin n) ℝ :=
  bᵀ * b + a • (1 : Matrix (Fin n) (Fin n) ℝ)

section

variable (b : Matrix (Fin k) (Fin n) ℝ) (a c : ℝ)

theorem ridge_mulVec (u : Fin n → ℝ) : ridge b a *ᵥ u = bᵀ *ᵥ (b *ᵥ u) + a • u := by
  rw [ridge, add_mulVec, smul_mulVec, one_mulVec, mulVec_mulVec]

theorem ridge_mulVec_sub (u : Fin n → ℝ) :
    ridge b c *ᵥ u = ridge b a *ᵥ u + (c - a) • u := by
  rw [ridge_mulVec, ridge_mulVec, sub_smul]
  abel

theorem dot_ridge (u v : Fin n → ℝ) :
    u ⬝ᵥ (ridge b a *ᵥ v) = (b *ᵥ u) ⬝ᵥ (b *ᵥ v) + a * (u ⬝ᵥ v) := by
  rw [ridge_mulVec, dotProduct_add, dotProduct_smul, smul_eq_mul, dotProduct_mulVec,
    vecMul_transpose]

/-- The matrices of two dampings commute, so their product is a symmetric form. -/
theorem ridge_dot_ridge (u v : Fin n → ℝ) :
    (ridge b a *ᵥ u) ⬝ᵥ (ridge b c *ᵥ v) =
      (bᵀ *ᵥ (b *ᵥ u)) ⬝ᵥ (bᵀ *ᵥ (b *ᵥ v)) + (a + c) * ((b *ᵥ u) ⬝ᵥ (b *ᵥ v)) +
        a * c * (u ⬝ᵥ v) := by
  have image (u v : Fin n → ℝ) : u ⬝ᵥ (bᵀ *ᵥ (b *ᵥ v)) = (b *ᵥ u) ⬝ᵥ (b *ᵥ v) := by
    rw [dotProduct_mulVec, vecMul_transpose]
  rw [ridge_mulVec, ridge_mulVec, add_dotProduct, dotProduct_add, dotProduct_add,
    smul_dotProduct, smul_dotProduct, dotProduct_smul, dotProduct_smul, image u v,
    dotProduct_comm _ v, image v u, dotProduct_comm (b *ᵥ v)]
  simp only [smul_eq_mul]
  ring

end

section

variable {b : Matrix (Fin k) (Fin n) ℝ} {a c : ℝ} (ha : 0 ≤ a)
include ha

theorem ridge_dot_nonneg (hc : 0 ≤ c) (u : Fin n → ℝ) :
    0 ≤ (ridge b a *ᵥ u) ⬝ᵥ (ridge b c *ᵥ u) := by
  rw [ridge_dot_ridge]
  have image := dot_self_nonneg (bᵀ *ᵥ (b *ᵥ u))
  have square := mul_nonneg (add_nonneg ha hc) (dot_self_nonneg (b *ᵥ u))
  have damped := mul_nonneg (mul_nonneg ha hc) (dot_self_nonneg u)
  linarith

/-- The inequality of Cauchy and Schwarz for this form. -/
theorem ridge_dot_sq_le (hc : 0 ≤ c) (u v : Fin n → ℝ) :
    ((ridge b a *ᵥ u) ⬝ᵥ (ridge b c *ᵥ v)) ^ 2 ≤
      ((ridge b a *ᵥ u) ⬝ᵥ (ridge b c *ᵥ u)) * ((ridge b a *ᵥ v) ⬝ᵥ (ridge b c *ᵥ v)) := by
  have symmetric : (ridge b a *ᵥ v) ⬝ᵥ (ridge b c *ᵥ u) =
      (ridge b a *ᵥ u) ⬝ᵥ (ridge b c *ᵥ v) := by
    simp only [ridge_dot_ridge, dotProduct_comm v, dotProduct_comm (b *ᵥ v),
      dotProduct_comm (bᵀ *ᵥ (b *ᵥ v))]
  have quadratic (t : ℝ) : 0 ≤ (ridge b a *ᵥ v) ⬝ᵥ (ridge b c *ᵥ v) * (t * t) +
      2 * ((ridge b a *ᵥ u) ⬝ᵥ (ridge b c *ᵥ v)) * t +
      (ridge b a *ᵥ u) ⬝ᵥ (ridge b c *ᵥ u) := by
    refine (@ridge_dot_nonneg _ _ b a c ha hc (u + t • v)).trans_eq ?_
    simp only [mulVec_add, mulVec_smul, add_dotProduct, dotProduct_add, smul_dotProduct,
      dotProduct_smul, smul_eq_mul, symmetric]
    ring
  have discriminant := discrim_le_zero quadratic
  rw [discrim] at discriminant
  linarith

theorem isUnit_ridge (regular : IsUnit (ridge b 0)) : IsUnit (ridge b a) := by
  -- A vector that is mapped to zero is mapped to zero by `B`.
  refine isUnit_of_kernel fun u zero => ?_
  have form := dot_ridge b a u u
  rw [zero, dotProduct_zero] at form
  have image := dot_self_nonneg (b *ᵥ u)
  have square := mul_nonneg ha (dot_self_nonneg u)
  have none : b *ᵥ u = 0 := dotProduct_self_eq_zero.mp (by linarith)
  apply mulVec_injective_iff_isUnit.mpr regular
  rw [ridge_mulVec, none, mulVec_zero, mulVec_zero, zero_smul, add_zero]

omit ha in
/-- How the solutions for two dampings are related. -/
theorem ridge_sub {g y z : Fin n → ℝ} (regular : IsUnit (ridge b a))
    (solves : ridge b a *ᵥ y = g) (solves' : ridge b c *ᵥ z = g) :
    ∃ h, ridge b a *ᵥ h = z ∧ y = z + (c - a) • h := by
  obtain ⟨h, image⟩ := mulVec_surjective_iff_isUnit.mpr regular z
  have image : ridge b a *ᵥ h = z := image
  refine ⟨h, image, mulVec_injective_iff_isUnit.mpr regular ?_⟩
  rw [mulVec_add, mulVec_smul, image, solves, ← solves', ridge_mulVec_sub b a c]

variable {g y z : Vector ℝ n}

omit ha in
theorem ne_zero_of_solves (steep : g.get ≠ 0) (solves : ridge b a *ᵥ y.get = g.get) :
    y.get ≠ 0 := by
  intro zero
  rw [zero, mulVec_zero] at solves
  exact steep solves.symm

omit ha in
theorem ne_zero_of_norm_pos (regular : IsUnit (ridge b a))
    (solves : ridge b a *ᵥ y.get = g.get) (some : 0 < norm y.toList) : g.get ≠ 0 := by
  intro zero
  have none : y.get = 0 := by
    apply mulVec_injective_iff_isUnit.mpr regular
    rw [solves, zero, mulVec_zero]
  exact ne_of_gt some ((norm_eq_zero_iff y).mpr (congrFun none))

/-- With more damping the solution is shorter. -/
theorem norm_lt_of_lt (regular : IsUnit (ridge b a)) (less : a < c) (steep : g.get ≠ 0)
    (solves : ridge b a *ᵥ y.get = g.get) (solves' : ridge b c *ᵥ z.get = g.get) :
    norm z.toList < norm y.toList := by
  obtain ⟨h, image, difference⟩ := ridge_sub regular solves solves'
  have nonzero : h ≠ 0 := by
    rintro rfl
    exact ne_zero_of_solves steep solves' (by rw [← image, mulVec_zero])
  have product : 0 ≤ h ⬝ᵥ z.get := by
    rw [← image, dot_ridge]
    exact add_nonneg (dot_self_nonneg _) (mul_nonneg ha (dot_self_nonneg h))
  have square : 0 < h ⬝ᵥ h :=
    lt_of_le_of_ne (dot_self_nonneg h) fun zero => nonzero (dotProduct_self_eq_zero.mp zero.symm)
  have gap : 0 < c - a := sub_pos.mpr less
  refine lt_of_pow_lt_pow_left₀ 2 (norm_nonneg y) ?_
  rw [norm_sq, norm_sq, difference]
  simp only [add_dotProduct, dotProduct_add, smul_dotProduct, dotProduct_smul, smul_eq_mul,
    dotProduct_comm z.get h]
  have mixed := mul_nonneg (le_of_lt gap) product
  have added := mul_pos (mul_pos gap gap) square
  linarith

omit ha in
/-- The damping bounds the step. -/
theorem mul_norm_le (solves : ridge b a *ᵥ y.get = g.get) :
    a * norm y.toList ≤ norm g.toList := by
  rcases eq_or_lt_of_le (norm_nonneg y) with zero | positive
  · rw [← zero, mul_zero]
    exact norm_nonneg g
  · have product : norm y.toList * (a * norm y.toList) ≤ norm y.toList * norm g.toList := by
      refine le_trans ?_ (dot_le_norm y g)
      rw [← solves, dot_ridge, ← norm_sq]
      linarith [dot_self_nonneg (b *ᵥ y.get)]
    exact le_of_mul_le_mul_left product positive

omit ha in
/-- A correction that is made at the length `y` for the length `z`, where `p` is the product of the
vectors that have these lengths. -/
theorem correction_le {y z w t p : ℝ} (some : 0 < y) (some' : 0 < z) (slope : 0 < w)
    (squares : y ^ 2 ≤ (1 + t * w ^ 2) * p) (acute : 0 ≤ p) (product : p ≤ z * y) :
    (y - z) / z / w / w ≤ t := by
  have factor : 0 < 1 + t * w ^ 2 := by
    by_contra! none
    have nothing := mul_nonpos_of_nonpos_of_nonneg none acute
    linarith [pow_pos some 2]
  have ratio : y ≤ (1 + t * w ^ 2) * z := by
    refine le_of_mul_le_mul_right ?_ some
    calc y * y = y ^ 2 := (pow_two y).symm
      _ ≤ (1 + t * w ^ 2) * (z * y) :=
        squares.trans (mul_le_mul_of_nonneg_left product (le_of_lt factor))
      _ = (1 + t * w ^ 2) * z * y := (mul_assoc ..).symm
  rw [div_div _ w, div_le_iff₀ (mul_pos slope slope), div_le_iff₀ some']
  linarith

/-- A Newton correction for the reciprocal of the length does not go beyond the damping sought, on
whichever side of it the trial was made: the reciprocal is a concave function of the damping. -/
theorem newton_le {s : Matrix (Fin n) (Fin n) ℝ} (unit : IsUnit s) (gram : sᵀ * s = ridge b a)
    (hc : 0 ≤ c) (steep : g.get ≠ 0) (solves : ridge b a *ᵥ y.get = g.get)
    (solves' : ridge b c *ᵥ z.get = g.get) {w : Vector ℝ n}
    (normal : sᵀ *ᵥ w.get = (norm y.toList)⁻¹ • y.get) :
    a + (norm y.toList - norm z.toList) / norm z.toList / norm w.toList / norm w.toList ≤ c := by
  have regular : IsUnit (ridge b a) := by
    rw [← gram]
    exact (s.isUnit_transpose.mpr unit).mul unit
  have some := norm_pos_of_ne (ne_zero_of_solves steep solves)
  have some' := norm_pos_of_ne (ne_zero_of_solves steep solves')
  -- `w` is the image of the `u` that is mapped to the direction of `y`.
  obtain ⟨u, found⟩ := mulVec_surjective_iff_isUnit.mpr unit w.get
  have found : s *ᵥ u = w.get := found
  have direction : ridge b a *ᵥ u = (norm y.toList)⁻¹ • y.get := by
    rw [← gram, ← mulVec_mulVec, found, normal]
  have square : norm w.toList ^ 2 = (ridge b a *ᵥ u) ⬝ᵥ u := by
    rw [norm_sq, direction, ← normal, ← found, mulVec_transpose, ← dotProduct_mulVec]
  have slope : 0 < norm w.toList := by
    refine norm_pos_of_ne fun zero => ?_
    rw [zero, mulVec_zero] at normal
    have one := direction_dot_self some
    rw [← normal, zero_dotProduct] at one
    exact zero_ne_one one
  -- Cauchy and Schwarz, for the form on `u` and the `h` that leads from `z` to `y`.
  obtain ⟨h, image, difference⟩ := ridge_sub regular solves solves'
  have ahead : ridge b c *ᵥ h = y.get := by rw [ridge_mulVec_sub b a c, image, difference]
  have cauchy := @ridge_dot_sq_le _ _ b a c ha hc u h
  have acute := @ridge_dot_nonneg _ _ b a c ha hc h
  rw [ahead, image] at acute cauchy
  rw [ridge_mulVec_sub b a c u, dotProduct_add, dotProduct_smul, ← square, direction,
    direction_dot some, direction_dot_self some, smul_eq_mul] at cauchy
  have step := correction_le some some' slope cauchy acute (dot_le_norm z y)
  linarith

end

/-! ### The damping of a length -/

/-- Every length shorter than that of the undamped solution is the length of a damped one. -/
theorem exists_norm_eq {b : Matrix (Fin k) (Fin n) ℝ} {g y : Vector ℝ n} {delta : ℝ}
    (regular : IsUnit (ridge b 0)) (solves : ridge b 0 *ᵥ y.get = g.get) (radius : 0 < delta)
    (long : delta < norm y.toList) :
    ∃ a > 0, ∃ z : Vector ℝ n, ridge b a *ᵥ z.get = g.get ∧ norm z.toList = delta := by
  set solution : ℝ → Vector ℝ n := fun a => .ofFn ((ridge b a)⁻¹ *ᵥ g.get)
  have entries (a : ℝ) : (solution a).get = (ridge b a)⁻¹ *ᵥ g.get :=
    funext fun j => Vector.get_ofFn ..
  have unit {a : ℝ} (nonneg : 0 ≤ a) : IsUnit (ridge b a).det :=
    (isUnit_iff_isUnit_det _).mp (isUnit_ridge nonneg regular)
  have solved {a : ℝ} (nonneg : 0 ≤ a) : ridge b a *ᵥ (solution a).get = g.get := by
    rw [entries, mulVec_mulVec, mul_nonsing_inv _ (unit nonneg), one_mulVec]
  have undamped : solution 0 = y := by
    refine eq_of_get_eq (congrFun (mulVec_injective_iff_isUnit.mpr regular ?_))
    exact (solved le_rfl).trans solves.symm
  set bound := norm g.toList / delta
  have steep : 0 < norm g.toList :=
    norm_pos_of_ne (ne_zero_of_norm_pos regular solves (lt_trans radius long))
  have nonneg : 0 ≤ bound := div_nonneg (norm_nonneg g) (le_of_lt radius)
  -- As the damping bounds the step, this much of it makes the solution short enough.
  have short : norm (solution bound).toList ≤ delta := by
    have damped := mul_norm_le (solved nonneg)
    rw [div_mul_eq_mul_div, div_le_iff₀ radius] at damped
    exact le_of_mul_le_mul_left damped steep
  have continuous : ContinuousOn (fun a => norm (solution a).toList) (Set.Icc 0 bound) := by
    have matrix : Continuous (ridge b) := by
      unfold ridge
      fun_prop
    have inverse : ContinuousOn (fun a => (ridge b a)⁻¹) (Set.Icc 0 bound) := by
      simp only [inv_def, Ring.inverse_eq_inv']
      exact (matrix.matrix_det.continuousOn.inv₀ fun a inside =>
        (unit inside.1).ne_zero).smul matrix.matrix_adjugate.continuousOn
    simp only [norm_real, entries]
    fun_prop
  obtain ⟨a, ⟨le, -⟩, length⟩ :=
    intermediate_value_Icc' nonneg continuous ⟨short, by rw [undamped]; exact le_of_lt long⟩
  have length : norm (solution a).toList = delta := length
  refine ⟨a, lt_of_le_of_ne le ?_, solution a, solved le, length⟩
  rintro rfl
  rw [undamped] at length
  exact ne_of_gt long length

end LeastSquares
