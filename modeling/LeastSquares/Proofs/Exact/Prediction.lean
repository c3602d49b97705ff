import LeastSquares.Proofs.Exact.Radius

/-!
# Predicted reductions

The reduction that is predicted for a step is measured on the triangle and the damping only. For a
step that a search has found for a factored matrix `J`, without errors of rounding, it is the one of
the linear model. It is not negative, nor is the slope positive, and neither is zero unless the step
is.
-/
namespace LeastSquares

open Matrix

variable {m n : Nat} {tall : n ≤ m}

/-! ### Steps of a factored matrix -/

namespace Factor

variable {f : Factor ℝ m n} {w : Vector ℝ m} {diag : Vector ℝ n} {delta par : ℝ}
  {buffers : SearchBuffers ℝ n}

section

variable (positive : ∀ j, 0 < diag.get j) (radius : 0 < delta) (nonneg : 0 ≤ par)
include positive radius nonneg

/-- The step that is found satisfies the damped normal equations of the matrix. -/
theorem search_normal :
    let found := (f.system tall w).search tall diag delta par buffers
    (f.packed.matrixᵀ * f.packed.matrix + found.par • Matrix.diagonal fun l => diag.get l ^ 2) *ᵥ
      found.buffers.x.get = f.packed.matrixᵀ *ᵥ w.get :=
  normal_of_solves (Triangular.search_solves radius nonneg positive
    (f.system_permutation tall w).injective (f.system_revealing tall w) buffers)

/-- If it is not damped, the matrix maps it to zero only if it is zero. -/
theorem search_eq_zero
    (undamped : ((f.system tall w).search tall diag delta par buffers).par = 0)
    (image : f.packed.matrix *ᵥ
      ((f.system tall w).search tall diag delta par buffers).buffers.x.get = 0) :
    ((f.system tall w).search tall diag delta par buffers).buffers.x.get = 0 := by
  have step := Triangular.search_undamped radius nonneg positive
    (f.system_permutation tall w).injective undamped
  have length := f.upper_mulVec_dot tall
    ((f.system tall w).search tall diag delta par buffers).buffers.x.get
  rw [image, zero_dotProduct] at length
  have none := Triangular.eq_zero_of_leading step.zeros (dotProduct_self_eq_zero.mp length)
  exact f.compute_pivots_bijective.surjective.injective_comp_right none

/-- The image of a step and its damping are only both zero if the step is. -/
theorem search_still_iff :
    let found := (f.system tall w).search tall diag delta par buffers
    let p := -found.buffers.x.get
    (f.packed.matrix *ᵥ p) ⬝ᵥ (f.packed.matrix *ᵥ p) = 0 ∧
      found.par * ∑ l, (diag.get l * p l) ^ 2 = 0 ↔ p = 0 := by
  intro found p
  constructor
  · rintro ⟨still, weight⟩
    rcases mul_eq_zero.mp weight with undamped | short
    · have none := dotProduct_self_eq_zero.mp still
      rw [mulVec_neg, neg_eq_zero] at none
      exact neg_eq_zero.mpr (search_eq_zero positive radius nonneg undamped none)
    · funext l
      have square := (Finset.sum_eq_zero_iff_of_nonneg fun _ _ => sq_nonneg _).mp short l
        (Finset.mem_univ l)
      exact (mul_eq_zero.mp (pow_eq_zero_iff two_ne_zero |>.mp square)).resolve_left
        (ne_of_gt (positive l))
  · intro none
    simp [none]

end

/-- The image of a step under the triangle that a search leaves is as long as that under the
matrix. -/
theorem search_image_dot (p buffer : Vector ℝ n) :
    let found := (f.system tall w).search tall diag delta par buffers
    let image := Reduction.image tall found.r (f.compute true).pivots p buffer
    image.get ⬝ᵥ image.get = (f.packed.matrix *ᵥ p.get) ⬝ᵥ (f.packed.matrix *ᵥ p.get) := by
  intro found image
  have same : ((f.compute true).square tall).SameUpper tall found.r :=
    Triangular.search_sameUpper tall (f.system tall w) ..
  have image_eq : image.get = ((f.compute true).square tall).upper tall *ᵥ
      (p.get ∘ (f.compute true).pivots.get) := by
    rw [Reduction.get_image, same.upper_eq]
  rw [image_eq]
  exact f.upper_mulVec_dot tall p.get

end Factor

/-! ### The reduction predicted -/

theorem scaledLength_sq (diag x : Vector ℝ n) :
    scaledLength diag x ^ 2 = ∑ l, (diag.get l * x.get l) ^ 2 := by
  rw [scaledLength, norm_sq]
  refine Finset.sum_congr rfl fun l _ => ?_
  rw [Vector.get_ofFn, pow_two]

/-- A sum of two parts that are not negative, in proportion. -/
theorem eq_zero_iff_of_parts {r c k q d : ℝ} (scale : 0 < c) (weight : 0 < k) (image : 0 ≤ q)
    (damped : 0 ≤ d) (parts : r * c = q + k * d) : r = 0 ↔ q = 0 ∧ d = 0 := by
  have weighted : 0 ≤ k * d := mul_nonneg (le_of_lt weight) damped
  constructor
  · intro zero
    rw [zero, zero_mul] at parts
    exact ⟨by linarith, (mul_eq_zero.mp (show k * d = 0 by linarith)).resolve_left
      (ne_of_gt weight)⟩
  · rintro ⟨rfl, rfl⟩
    rw [mul_zero, add_zero] at parts
    exact (mul_eq_zero.mp parts).resolve_right (ne_of_gt scale)

/-- Without errors of rounding, for every matrix `J`, of any rank, and residuals that are not all
zero: let a search find the damping and the step for the triangle of `J` and the residuals in its
basis, in the direction opposite to the step `p`. Relative to the squared norm of the residuals, the
reduction predicted for `p` is that of the sum of squares in the linear model, and the slope is that
of the model along `p`. So the reduction is not negative and the slope not positive, and each of
them is zero exactly if `p` is. -/
theorem search_predicted (tall : n ≤ m) (f : Factor ℝ m n) {w : Vector ℝ m}
    (residual : 0 < norm w.toList) {diag : Vector ℝ n} (positive : ∀ j, 0 < diag.get j)
    {delta par : ℝ} (radius : 0 < delta) (nonneg : 0 ≤ par) (buffers : SearchBuffers ℝ n)
    (trial : ℝ) (buffer : Vector ℝ n) :
    let J := f.packed.matrix
    let found := (f.system tall w).search tall diag delta par buffers
    let p : Vector ℝ n := .ofFn fun j => -found.buffers.x.get j
    let r := Reduction.measure (norm w.toList) trial (scaledLength diag p) found.par
      (Reduction.image tall found.r (f.compute true).pivots p buffer)
    r.predicted * norm w.toList ^ 2 =
        w.get ⬝ᵥ w.get - (w.get + J *ᵥ p.get) ⬝ᵥ (w.get + J *ᵥ p.get) ∧
      r.slope * norm w.toList ^ 2 = p.get ⬝ᵥ (Jᵀ *ᵥ w.get) ∧
      r.slope ≤ 0 ∧ 0 ≤ r.predicted ∧
      (r.predicted = 0 ↔ p.get = 0) ∧ (r.slope = 0 ↔ p.get = 0) := by
  intro J found p r
  have step : p.get = -found.buffers.x.get := funext fun j => Vector.get_ofFn ..
  have damping : 0 ≤ found.par := Triangular.search_par_nonneg radius nonneg positive
    (f.system_permutation tall w).injective buffers
  have normal : (Jᵀ * J + found.par • diagonal fun l => diag.get l ^ 2) *ᵥ found.buffers.x.get =
      Jᵀ *ᵥ w.get :=
    Factor.search_normal positive radius nonneg
  -- The two parts that are measured: the image of the step, and its damping.
  let q := (J *ᵥ p.get) ⬝ᵥ (J *ᵥ p.get)
  let d := found.par * ∑ l, (diag.get l * p.get l) ^ 2
  obtain ⟨predicted, slope⟩ :
      r.predicted * norm w.toList ^ 2 = q + 2 * d ∧ r.slope * norm w.toList ^ 2 = -(q + d) := by
    have parts := Reduction.measure_mul_sq (ne_of_gt residual) damping trial (scaledLength diag p)
      (Reduction.image tall found.r (f.compute true).pivots p buffer)
    rwa [Factor.search_image_dot, scaledLength_sq] at parts
  have model : w.get ⬝ᵥ w.get - (w.get + J *ᵥ p.get) ⬝ᵥ (w.get + J *ᵥ p.get) = q + 2 * d := by
    simp only [q, d, step]
    exact State.model_of_normal normal
  have along : p.get ⬝ᵥ (Jᵀ *ᵥ w.get) = -(q + d) := by
    simp only [q, d, step]
    exact State.slope_of_normal normal
  have image : 0 ≤ q := Finset.sum_nonneg fun _ _ => mul_self_nonneg _
  have damped : 0 ≤ d := mul_nonneg damping (Finset.sum_nonneg fun _ _ => sq_nonneg _)
  have scale : 0 < norm w.toList ^ 2 := pow_pos residual 2
  have still : q = 0 ∧ d = 0 ↔ p.get = 0 := by
    simp only [q, d, step]
    exact Factor.search_still_iff positive radius nonneg
  refine ⟨predicted.trans model.symm, slope.trans along.symm,
    nonpos_of_mul_nonpos_left (by linarith) scale, nonneg_of_mul_nonneg_left (by linarith) scale,
    (eq_zero_iff_of_parts scale two_pos image damped predicted).trans still, ?_⟩
  rw [← neg_eq_zero]
  exact (eq_zero_iff_of_parts scale one_pos image damped (by linarith)).trans still

/-- A matrix with columns that are opposite to each other. -/
noncomputable def dependent : Factor ℝ 3 2 :=
  { packed := #v[#v[1, 0, 1], #v[-1, 0, -1]]
    pivots := .ofFn id
    rdiag := .replicate 2 0
    norms := .replicate 2 0
    reference := .replicate 2 0 }

theorem search_predicted_dependent :
    0 < norm (#v[1, 0, 3] : Vector ℝ 3).toList ∧ (∀ j, 0 < (#v[1, 3] : Vector ℝ 2).get j) ∧
      (0 : ℝ) < 1 ∧ (0 : ℝ) ≤ 0 ∧
      let blank : SearchBuffers ℝ 2 := ⟨#v[0, 0], #v[0, 0], #v[0, 0], #v[0, 0]⟩
      let found := (dependent.system (by decide) #v[1, 0, 3]).search (by decide) #v[1, 3] 1 0 blank
      let p : Vector ℝ 2 := .ofFn fun j => -found.buffers.x.get j
      0 ≤ (Reduction.measure (norm (#v[1, 0, 3] : Vector ℝ 3).toList) 2 (scaledLength #v[1, 3] p)
        found.par (Reduction.image (by decide) found.r (dependent.compute true).pivots p
          #v[0, 0])).predicted := by
  have residual : 0 < norm (#v[1, 0, 3] : Vector ℝ 3).toList := by
    refine lt_of_le_of_ne (norm_nonneg _) fun zero => ?_
    exact one_ne_zero ((norm_eq_zero_iff _).mp zero.symm 0)
  have positive (j : Fin 2) : 0 < (#v[1, 3] : Vector ℝ 2).get j := by
    fin_cases j
    · exact one_pos
    · exact three_pos
  obtain ⟨-, -, -, predicted, -⟩ := search_predicted (show 2 ≤ 3 by decide) dependent residual
    positive one_pos le_rfl ⟨#v[0, 0], #v[0, 0], #v[0, 0], #v[0, 0]⟩ 2 #v[0, 0]
  exact ⟨residual, positive, one_pos, le_rfl, predicted⟩

end LeastSquares
