import LeastSquares.Proofs.Exact.Confinement
import LeastSquares.Proofs.Exact.Orthogonality

/-!
# Steps solve the normal equations

Without errors of rounding the step `x` that a search finds satisfies
`(JᵀJ + par D²) x = Jᵀ f` for the damping `par` it reports, whatever the rank of the Jacobian. The
reduction predicted for the step is therefore the one that the linear model achieves.
-/
namespace LeastSquares

open Matrix

variable {m n : Nat} {tall : n ≤ m}

theorem sum_masked (p : Fin n → Prop) [DecidablePred p] (f g : Fin n → ℝ) :
    ∑ i, (if p i then f i else 0) * g i = ∑ i with p i, f i * g i := by
  rw [Finset.sum_filter]
  exact Finset.sum_congr rfl fun i _ => by rw [ite_mul, zero_mul]

theorem Columns.SameUpper.upper_eq {a b : Columns ℝ m n} (h : a.SameUpper tall b) :
    b.upper tall = a.upper tall := by
  ext i j
  change (if i ≤ j then b.lead tall i j else 0) = if i ≤ j then a.lead tall i j else 0
  split
  next upper => exact h.lead_eq upper
  next => rfl

theorem norm_sq (v : Vector ℝ n) : norm v.toList ^ 2 = v.get ⬝ᵥ v.get := by
  rw [norm_real, Real.sq_sqrt (Finset.sum_nonneg fun i _ => sq_nonneg _)]
  exact Finset.sum_congr rfl fun i _ => pow_two _

/-- The predicted reduction and the slope, relative to the sum of squares. -/
theorem Reduction.measure_mul_sq {current par : ℝ} (nonzero : current ≠ 0) (nonneg : 0 ≤ par)
    (trial length : ℝ) (image : Vector ℝ n) :
    let r := measure current trial length par image
    r.predicted * current ^ 2 = image.get ⬝ᵥ image.get + 2 * (par * length ^ 2) ∧
      r.slope * current ^ 2 = -(image.get ⬝ᵥ image.get + par * length ^ 2) := by
  intro r
  have quotient (x : ℝ) : x / current * (x / current) * current ^ 2 = x ^ 2 := by field_simp
  have squares : norm image.toList ^ 2 = image.get ⬝ᵥ image.get ∧
      (√par * length) ^ 2 = par * length ^ 2 :=
    ⟨norm_sq image, by rw [mul_pow, Real.sq_sqrt nonneg]⟩
  constructor
  · change (norm image.toList / current * (norm image.toList / current) +
      √par * length / current * (√par * length / current) / 0.5) * current ^ 2 = _
    rw [add_mul, quotient, div_mul_eq_mul_div, quotient, squares.1, squares.2]
    norm_num
    ring
  · change -(norm image.toList / current * (norm image.toList / current) +
      √par * length / current * (√par * length / current)) * current ^ 2 = _
    rw [neg_mul, add_mul, quotient, quotient, squares.1, squares.2]

/-- `R Pᵀ step`. -/
theorem Reduction.get_image (r : Columns ℝ m n) (pivots : Vector (Fin n) n)
    (step buffer : Vector ℝ n) :
    (image tall r pivots step buffer).get = r.upper tall *ᵥ (step.get ∘ pivots.get) := by
  ext i
  rw [image, get_overwrite, sumWhere_real]
  exact (sum_masked (i ≤ ·) ..).symm

namespace Triangular

/-! ### Triangular systems -/

theorem gradient_eq (tall : n ≤ m) (s : Triangular ℝ m n) :
    s.gradient tall = (s.r.upper tall)ᵀ *ᵥ s.qtb.get := by
  ext i
  exact (sum_masked (· ≤ i) ..).symm

/-- The undamped step solves `RᵀR z = Rᵀ b`, though `R` may be singular. -/
theorem undamped_solves {s : Triangular ℝ m n} (revealing : s.r.RankRevealing tall)
    (buffer : Vector ℝ n) :
    (s.r.upper tall)ᵀ *ᵥ (s.r.upper tall *ᵥ (s.undamped tall buffer).get) =
      (s.r.upper tall)ᵀ *ᵥ s.qtb.get := by
  ext i
  change ∑ l, s.r.upper tall l i * (s.r.upper tall *ᵥ (s.undamped tall buffer).get) l =
    ∑ l, s.r.upper tall l i * s.qtb.get l
  refine Finset.sum_congr rfl fun l _ => ?_
  by_cases inside : l.val < s.rank tall
  · rw [← (s.undamped_reached buffer).found l inside (Nat.zero_le _)]
    exact congrArg _ (sum_masked (l ≤ ·) ..)
  · -- Below the leading block a triangle that reveals its rank is zero.
    have bound : s.rank tall < n := by omega
    have first : s.r.lead tall ⟨s.rank tall, bound⟩ ⟨s.rank tall, bound⟩ = 0 :=
      beq_iff_eq.mp (firstIndex_spec bound)
    have nothing : s.r.upper tall l i = 0 := by
      change (if l ≤ i then s.r.lead tall l i else 0) = 0
      split
      next upper => exact revealing _ l i first (by simpa [Fin.le_def] using inside) upper
      next => rfl
    rw [nothing, zero_mul, zero_mul]

/-- The triangle kept below the diagonal. -/
def below (tall : n ≤ m) (a : Columns ℝ m n) : Matrix (Fin n) (Fin n) ℝ :=
  .of fun l i => if l ≤ i then a.lead tall i l else 0

variable (s : Triangular ℝ m n) {diag : Vector ℝ n}

/-- `SᵀS = RᵀR + D²`. -/
theorem absorbed_gram (rhs : Vector ℝ n) :
    (below tall (s.absorbed tall diag rhs).1)ᵀ * below tall (s.absorbed tall diag rhs).1 =
      (s.r.upper tall)ᵀ * s.r.upper tall +
        diagonal fun i => diag.get (s.pivots.get i) ^ 2 := by
  ext i j
  refine (s.absorbed_product tall diag rhs i (some j)).trans ?_
  rw [Matrix.add_apply, diagonal_apply]
  refine congrArg₂ _ (Finset.sum_congr rfl fun l _ => ?_) (if_congr ?_ rfl rfl)
  · rw [coefficient_withLowerCopy, coefficient_withLowerCopy]
    rfl
  · rw [Option.some.injEq, eq_comm]

/-- `Sᵀ w = Rᵀ b`. -/
theorem absorbed_rhs : (below tall (s.absorbed tall diag s.qtb).1)ᵀ *ᵥ
    (s.absorbed tall diag s.qtb).2.get = (s.r.upper tall)ᵀ *ᵥ s.qtb.get := by
  rw [← gradient_eq]
  ext i
  rw [← s.absorbed_gradient tall diag i]
  exact sum_masked (· ≤ i) ..

/-- A damped solve satisfies the damped normal equations. -/
theorem damped_normal (x sdiag permuted : Vector ℝ n) (nonzero : ∀ j, diag.get j ≠ 0) :
    ((s.r.upper tall)ᵀ * s.r.upper tall + diagonal fun i => diag.get (s.pivots.get i) ^ 2) *ᵥ
        (s.damped tall diag x sdiag permuted).permuted.get =
      (s.r.upper tall)ᵀ *ᵥ s.qtb.get := by
  have solved : below tall (s.absorbed tall diag s.qtb).1 *ᵥ
      (s.damped tall diag x sdiag permuted).permuted.get = (s.absorbed tall diag s.qtb).2.get := by
    ext j
    rw [← s.damped_solves x sdiag permuted nonzero j]
    exact sum_masked (j ≤ ·) ..
  rw [← s.absorbed_gram s.qtb, ← mulVec_mulVec, solved, absorbed_rhs]

/-! ### Searches -/

/-- The step `x` satisfies the normal equations damped by `par`, in the order of the pivots. -/
def Solves (tall : n ≤ m) (s : Triangular ℝ m n) (diag : Vector ℝ n) (par : ℝ) (x : Vector ℝ n) :
    Prop :=
  ((s.r.upper tall)ᵀ * s.r.upper tall + par • diagonal fun i => diag.get (s.pivots.get i) ^ 2) *ᵥ
    (x.get ∘ s.pivots.get) = (s.r.upper tall)ᵀ *ᵥ s.qtb.get

/-- A root of the damping in each scale factor damps with the damping itself. -/
theorem diagonal_sqrt_mul_sq {damping : ℝ} (nonneg : 0 ≤ damping) (d : Fin n → ℝ) :
    (diagonal fun i => (√damping * d i) ^ 2) = damping • diagonal fun i => d i ^ 2 := by
  rw [← diagonal_smul]
  refine congrArg diagonal (funext fun i => ?_)
  rw [mul_pow, Real.sq_sqrt nonneg]
  rfl

end Triangular

theorem Refinement.attempt_solves {s : Triangular ℝ m n} {diag : Vector ℝ n} {delta : ℝ}
    (positive : ∀ j, 0 < diag.get j) (apart : Function.Injective s.pivots.get)
    {state : Refinement ℝ m n} (h : state.Sound tall s) :
    s.Solves tall diag (state.attempt tall s diag delta).1.par
      (state.attempt tall s diag delta).1.buffers.x := by
  have damping := damping_pos h.par
  set root := overwrite state.buffers.direction fun j => √state.damping * diag.get j with root_eq
  have nonzero (j : Fin n) : root.get j ≠ 0 := scaledDamping_ne_zero positive h.par j
  have squares : (diagonal fun i => root.get (s.pivots.get i) ^ 2) =
      state.damping • diagonal fun i => diag.get (s.pivots.get i) ^ 2 := by
    simp only [root_eq, get_overwrite]
    exact Triangular.diagonal_sqrt_mul_sq (le_of_lt damping) _
  have normal := @Triangular.damped_normal m n tall { s with r := state.r } root state.buffers.x
    state.buffers.sdiag state.buffers.scaled nonzero
  have placed : (state.attempt tall s diag delta).1.buffers.x.get ∘ s.pivots.get =
      (state.solved tall s diag).permuted.get := funext fun j => get_scatter apart ..
  dsimp only at normal
  rw [h.same.upper_eq, squares] at normal
  dsimp only [Triangular.Solves]
  rw [placed]
  exact normal

namespace Triangular

variable {s : Triangular ℝ m n} {diag : Vector ℝ n} {delta par : ℝ}

/-- A search that makes trials finds a positive damping, with the step that belongs to it. -/
theorem search_damped (radius : 0 < delta) (nonneg : 0 ≤ par) (positive : ∀ j, 0 < diag.get j)
    (apart : Function.Injective s.pivots.get) {buffers : SearchBuffers ℝ n}
    (leaves : ¬ s.undampedLength tall diag buffers - delta ≤ 0.1 * delta) :
    let found := s.search tall diag delta par buffers
    0 < found.par ∧ s.Solves tall diag found.par found.buffers.x := by
  intro found
  obtain ⟨last, sound, ends⟩ := @search_last m n tall s diag delta par radius nonneg buffers leaves
  have ends : found = _ := ends
  rw [ends]
  exact ⟨Refinement.damping_pos sound.par,
    @Refinement.attempt_solves m n tall s diag delta positive apart last sound⟩

/-- What a search finds satisfies the normal equations with the damping it reports. -/
theorem search_solves (radius : 0 < delta) (nonneg : 0 ≤ par) (positive : ∀ j, 0 < diag.get j)
    (apart : Function.Injective s.pivots.get) (revealing : s.r.RankRevealing tall)
    (buffers : SearchBuffers ℝ n) :
    s.Solves tall diag (s.search tall diag delta par buffers).par
      (s.search tall diag delta par buffers).buffers.x := by
  by_cases short : s.undampedLength tall diag buffers - delta ≤ 0.1 * delta
  · have direction : (s.undampedStep tall diag buffers).x.get ∘ s.pivots.get =
        (s.undamped tall buffers.direction).get :=
      funext fun j => get_scatter apart ..
    rw [search_of_short short]
    dsimp only [Solves]
    rw [direction, zero_smul, add_zero, ← mulVec_mulVec, undamped_solves revealing]
  · exact (search_damped radius nonneg positive apart short).2

end Triangular

/-! ### Original order -/

/-- A matrix applied in another order of the entries. -/
theorem submatrix_mulVec_comp {order : Fin n → Fin n} (bijective : Function.Bijective order)
    (a : Matrix (Fin n) (Fin n) ℝ) (v : Fin n → ℝ) :
    a.submatrix order order *ᵥ (v ∘ order) = (a *ᵥ v) ∘ order := by
  let e : Fin n ≃ Fin n := .ofBijective order bijective
  refine (submatrix_mulVec_equiv a (v ∘ e) e e).trans ?_
  rw [Function.comp_assoc, e.self_comp_symm, Function.comp_id]
  rfl

/-- The length of a vector in the order of the pivots, seen through `R`, is its length seen through
the matrix. -/
theorem Factor.upper_mulVec_dot (tall : n ≤ m) (f : Factor ℝ m n) (v : Fin n → ℝ) :
    let image := ((f.compute true).square tall).upper tall *ᵥ (v ∘ (f.compute true).pivots.get)
    image ⬝ᵥ image = (f.packed.matrix *ᵥ v) ⬝ᵥ (f.packed.matrix *ᵥ v) := by
  intro image
  have bijective := f.compute_pivots_bijective
  have gram (u : Fin n → ℝ) (k : Nat) (a : Matrix (Fin k) (Fin n) ℝ) :
      (a *ᵥ u) ⬝ᵥ (a *ᵥ u) = u ⬝ᵥ ((aᵀ * a) *ᵥ u) := by
    rw [← mulVec_mulVec, dotProduct_mulVec u, vecMul_transpose]
  rw [gram, gram, upper_gram, submatrix_mulVec_comp bijective]
  exact Equiv.sum_comp (.ofBijective _ bijective) fun l =>
    v l * ((f.packed.matrixᵀ * f.packed.matrix) *ᵥ v) l

namespace Factor

/-- The triangular system that is left of a matrix and a right-hand side. -/
noncomputable def system (tall : n ≤ m) (f : Factor ℝ m n) (w : Vector ℝ m) : Triangular ℝ m n :=
  ⟨(f.compute true).square tall, (f.compute true).pivots, (f.compute true).projected tall w⟩

theorem system_permutation (tall : n ≤ m) (f : Factor ℝ m n) (w : Vector ℝ m) :
    Function.Bijective (f.system tall w).pivots.get :=
  f.compute_pivots_bijective

theorem system_revealing (tall : n ≤ m) (f : Factor ℝ m n) (w : Vector ℝ m) :
    (f.system tall w).r.RankRevealing tall :=
  f.square_rankRevealing tall

/-- Its normal equations are those of the matrix. -/
theorem normal_of_solves {f : Factor ℝ m n} {w : Vector ℝ m} {diag x : Vector ℝ n} {par : ℝ}
    (solves : (f.system tall w).Solves tall diag par x) :
    (f.packed.matrixᵀ * f.packed.matrix + par • Matrix.diagonal fun l => diag.get l ^ 2) *ᵥ x.get =
      f.packed.matrixᵀ *ᵥ w.get := by
  have bijective := f.compute_pivots_bijective
  dsimp only [Triangular.Solves, system] at solves
  rw [f.upper_gram, f.upper_projected] at solves
  have scaled : (Matrix.diagonal fun j => diag.get ((f.compute true).pivots.get j) ^ 2) =
      (Matrix.diagonal fun l => diag.get l ^ 2).submatrix (f.compute true).pivots.get
        (f.compute true).pivots.get :=
    (submatrix_diagonal (fun l => diag.get l ^ 2) _ bijective.injective).symm
  rw [scaled] at solves
  refine bijective.surjective.injective_comp_right ?_
  exact (submatrix_mulVec_comp bijective _ _).symm.trans solves

end Factor

namespace State

variable {p : Problem ℝ} {tall : p.parameterCount ≤ p.residualCount} {t : State p}
  {f : Factor ℝ p.residualCount p.parameterCount} {w : Vector ℝ p.residualCount}

theorem Holds.gradient_eq (holds : t.Holds tall (f.compute true) w) :
    t.system.gradient tall = (f.packed.matrixᵀ *ᵥ w.get) ∘ (f.compute true).pivots.get := by
  rw [Triangular.gradient_eq, ← f.upper_projected tall, ← holds.triangle.upper_eq, ← holds.qtf]
  rfl

/-- The step that is found for a factored Jacobian solves its damped normal equations. -/
theorem Armed.normal (h : t.Armed tall) (holds : t.Holds tall (f.compute true) w) :
    (f.packed.matrixᵀ * f.packed.matrix +
        (t.searchStep tall).region.par • diagonal fun l => t.diag.get l ^ 2) *ᵥ
      (t.searchStep tall).buffers.step.get = f.packed.matrixᵀ *ᵥ w.get := by
  have solves : t.system.Solves tall t.diag (t.searchStep tall).region.par
      (t.searchStep tall).buffers.step :=
    Triangular.search_solves h.delta h.par h.diag h.apart h.revealing _
  dsimp only [Triangular.Solves, system] at solves
  rw [holds.pivots, holds.qtf, holds.triangle.upper_eq] at solves
  exact Factor.normal_of_solves solves

/-! ### The reduction predicted -/

/-- What the normal equations say about lengths. -/
theorem dot_of_normal {a : Matrix (Fin m) (Fin n) ℝ} {d x : Fin n → ℝ} {w : Fin m → ℝ} {par : ℝ}
    (normal : (aᵀ * a + par • diagonal fun l => d l ^ 2) *ᵥ x = aᵀ *ᵥ w) :
    (a *ᵥ x) ⬝ᵥ w = (a *ᵥ x) ⬝ᵥ (a *ᵥ x) + par * ∑ l, (d l * x l) ^ 2 := by
  have product : x ⬝ᵥ ((aᵀ * a + par • diagonal fun l => d l ^ 2) *ᵥ x) = x ⬝ᵥ (aᵀ *ᵥ w) :=
    congrArg (x ⬝ᵥ ·) normal
  have damped : x ⬝ᵥ ((diagonal fun l => d l ^ 2) *ᵥ x) = ∑ l, (d l * x l) ^ 2 := by
    refine Finset.sum_congr rfl fun l _ => ?_
    rw [mulVec_diagonal]
    ring
  rw [add_mulVec, dotProduct_add, smul_mulVec, dotProduct_smul, damped, ← mulVec_mulVec,
    dotProduct_mulVec x, dotProduct_mulVec x, vecMul_transpose] at product
  exact product.symm

/-- The reduction of the model for a step that solves the normal equations. -/
theorem model_of_normal {a : Matrix (Fin m) (Fin n) ℝ} {d x : Fin n → ℝ} {w : Fin m → ℝ} {par : ℝ}
    (normal : (aᵀ * a + par • diagonal fun l => d l ^ 2) *ᵥ x = aᵀ *ᵥ w) :
    w ⬝ᵥ w - (w + a *ᵥ -x) ⬝ᵥ (w + a *ᵥ -x) =
      (a *ᵥ -x) ⬝ᵥ (a *ᵥ -x) + 2 * (par * ∑ l, (d l * (-x) l) ^ 2) := by
  have energy := dot_of_normal normal
  simp only [mulVec_neg, Pi.neg_apply, mul_neg, neg_sq, add_dotProduct, dotProduct_add,
    neg_dotProduct, dotProduct_neg, dotProduct_comm w]
  linarith

/-- The slope of the model along it. -/
theorem slope_of_normal {a : Matrix (Fin m) (Fin n) ℝ} {d x : Fin n → ℝ} {w : Fin m → ℝ} {par : ℝ}
    (normal : (aᵀ * a + par • diagonal fun l => d l ^ 2) *ᵥ x = aᵀ *ᵥ w) :
    -x ⬝ᵥ (aᵀ *ᵥ w) =
      -((a *ᵥ -x) ⬝ᵥ (a *ᵥ -x) + par * ∑ l, (d l * (-x) l) ^ 2) := by
  have energy := dot_of_normal normal
  rw [dotProduct_mulVec, vecMul_transpose]
  simp only [mulVec_neg, Pi.neg_apply, mul_neg, neg_sq, neg_dotProduct, dotProduct_neg]
  linarith

/-- The step that is tried. -/
noncomputable def step (tall : p.parameterCount ≤ p.residualCount) (t : State p) :
    Fin p.parameterCount → ℝ :=
  (t.searchStep tall).placeStep.buffers.step.get

theorem step_eq (tall : p.parameterCount ≤ p.residualCount) (t : State p) :
    t.step tall = -(t.searchStep tall).buffers.step.get :=
  funext fun _ => get_overwrite ..

/-- The image of the step under `R`. -/
noncomputable def stepImage (tall : p.parameterCount ≤ p.residualCount) (t : State p) :
    Vector ℝ p.parameterCount :=
  let placed := (t.searchStep tall).placeStep.buffers
  Reduction.image tall placed.jacobian placed.pivots placed.step placed.scaled

theorem trialReduction_eq (tall : p.parameterCount ≤ p.residualCount) (t : State p) :
    t.trialReduction tall = .measure t.fnorm
      (norm (t.proposed tall).evaluateTrial.1.buffers.trial.toList)
      (t.searchStep tall).placeStep.stepLength (t.searchStep tall).region.par
      (t.stepImage tall) := by
  unfold trialReduction proposed capRegion
  split <;> rfl

theorem Holds.stepImage_dot (holds : t.Holds tall (f.compute true) w) :
    (t.stepImage tall).get ⬝ᵥ (t.stepImage tall).get =
      (f.packed.matrix *ᵥ t.step tall) ⬝ᵥ (f.packed.matrix *ᵥ t.step tall) := by
  have found := holds.of_same (searchStep_same_factorization tall t)
  have image : (t.stepImage tall).get =
      (t.searchStep tall).buffers.jacobian.upper tall *ᵥ
        (t.step tall ∘ (t.searchStep tall).buffers.pivots.get) :=
    Reduction.get_image ..
  rw [image, found.triangle.upper_eq, found.pivots]
  exact f.upper_mulVec_dot tall (t.step tall)

theorem stepLength_sq (tall : p.parameterCount ≤ p.residualCount) (t : State p) :
    (t.searchStep tall).placeStep.stepLength ^ 2 = ∑ l, (t.diag.get l * t.step tall l) ^ 2 := by
  refine (norm_sq _).trans (Finset.sum_congr rfl fun l _ => ?_)
  rw [← pow_two]
  exact congrArg (· ^ 2) (get_overwrite ..)

theorem Armed.predicted_mul_sq (h : t.Armed tall) (holds : t.Holds tall (f.compute true) w) :
    (t.trialReduction tall).predicted * t.fnorm ^ 2 =
      (f.packed.matrix *ᵥ t.step tall) ⬝ᵥ (f.packed.matrix *ᵥ t.step tall) +
        2 * ((t.searchStep tall).region.par * (t.searchStep tall).placeStep.stepLength ^ 2) := by
  rw [trialReduction_eq, (Reduction.measure_mul_sq (ne_of_gt h.fnorm) h.found.1 ..).1,
    holds.stepImage_dot]

/-- The reduction predicted is the one that the linear model achieves. -/
theorem Armed.predicted (h : t.Armed tall) (holds : t.Holds tall (f.compute true) w) :
    (t.trialReduction tall).predicted * t.fnorm ^ 2 =
      w.get ⬝ᵥ w.get - (w.get + f.packed.matrix *ᵥ t.step tall) ⬝ᵥ
        (w.get + f.packed.matrix *ᵥ t.step tall) := by
  rw [h.predicted_mul_sq holds, stepLength_sq, step_eq]
  exact (model_of_normal (h.normal holds)).symm

/-- Some reduction is predicted. -/
theorem Armed.predicted_pos (h : t.Armed tall) (holds : t.Holds tall (f.compute true) w) :
    0 < (t.trialReduction tall).predicted := by
  have nonneg : 0 ≤ (t.trialReduction tall).predicted := by
    rw [trialReduction_eq]
    exact Reduction.predicted_nonneg
  refine lt_of_le_of_ne nonneg fun zero => ?_
  have length := h.stepLength_pos
  have damping := h.found.1
  -- Otherwise the step is not damped, and the model does not change along it.
  have parts := h.predicted_mul_sq holds
  have image : 0 ≤ (f.packed.matrix *ᵥ t.step tall) ⬝ᵥ (f.packed.matrix *ᵥ t.step tall) :=
    Finset.sum_nonneg fun i _ => mul_self_nonneg _
  have damped := mul_nonneg damping (sq_nonneg (t.searchStep tall).placeStep.stepLength)
  rw [← zero, zero_mul] at parts
  have undamped : (t.searchStep tall).region.par = 0 :=
    (mul_eq_zero.mp (show _ * _ = _ by linarith)).resolve_right (pow_ne_zero 2 (ne_of_gt length))
  have still : f.packed.matrix *ᵥ (t.searchStep tall).buffers.step.get = 0 := by
    have none := dotProduct_self_eq_zero.mp
      (show (f.packed.matrix *ᵥ t.step tall) ⬝ᵥ (f.packed.matrix *ᵥ t.step tall) = 0 by linarith)
    rwa [step_eq, mulVec_neg, neg_eq_zero] at none
  have normal := h.normal holds
  rw [undamped, zero_smul, add_zero, ← mulVec_mulVec, still, mulVec_zero] at normal
  obtain ⟨i, steep⟩ := h.steep
  refine steep ((congrFun holds.gradient_eq i).trans ?_)
  exact congrFun normal.symm _

end State

end LeastSquares
