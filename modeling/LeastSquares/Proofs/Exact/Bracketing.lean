import LeastSquares.Proofs.Exact.Radius
import LeastSquares.Proofs.Exact.Secular

/-!
# Searches close in on the damping

With full rank there is one damping whose step reaches exactly to the boundary of the region, if the
undamped step leaves it. The bounds of a search without errors of rounding always enclose this
damping. As Newton corrections do not go beyond it, the trials from the second on approach it from
below, with steps that are no shorter than the radius.
-/
namespace LeastSquares

open Matrix

variable {m n : Nat} {tall : n ≤ m}

namespace Triangular

/-! ### Scaled systems -/

section

variable (s : Triangular ℝ m n) (diag : Vector ℝ n)

/-- `D⁻¹`, in the order of the pivots. -/
noncomputable def unscaled : Matrix (Fin n) (Fin n) ℝ :=
  diagonal fun j => (diag.get (s.pivots.get j))⁻¹

/-- `R D⁻¹`. -/
noncomputable def scaledUpper (tall : n ≤ m) : Matrix (Fin n) (Fin n) ℝ :=
  s.r.upper tall * s.unscaled diag

/-- `D x`, in the order of the pivots. -/
noncomputable def scaledStep (x : Vector ℝ n) : Vector ℝ n :=
  .ofFn fun j => diag.get (s.pivots.get j) * x.get (s.pivots.get j)

/-- `D⁻¹ Rᵀ b`. -/
noncomputable def steepness (tall : n ≤ m) : Vector ℝ n :=
  .ofFn fun j => s.gradient tall j / diag.get (s.pivots.get j)

end

variable {s : Triangular ℝ m n} {diag : Vector ℝ n} {a c delta par : ℝ}

theorem get_boundaryNormal (s : Triangular ℝ m n) (diag scaled : Vector ℝ n) (length : ℝ)
    (buffer : Vector ℝ n) (j : Fin n) : (s.boundaryNormal diag scaled length buffer).get j =
      diag.get (s.pivots.get j) * (scaled.get (s.pivots.get j) / length) :=
  get_overwrite ..

theorem unscaled_transpose (s : Triangular ℝ m n) (diag : Vector ℝ n) :
    (s.unscaled diag)ᵀ = s.unscaled diag :=
  diagonal_transpose _

theorem norm_scaledStep (permutation : Function.Bijective s.pivots.get) (x : Vector ℝ n) :
    norm (s.scaledStep diag x).toList = scaledLength diag x := by
  simp only [scaledLength, norm_real, scaledStep, Vector.get_ofFn]
  exact congrArg _ (Equiv.sum_comp (.ofBijective _ permutation) fun l => (diag.get l * x.get l) ^ 2)

section

variable (positive : ∀ j, 0 < diag.get j)
include positive

theorem unscaled_scaledStep (x : Vector ℝ n) :
    s.unscaled diag *ᵥ (s.scaledStep diag x).get = x.get ∘ s.pivots.get := by
  ext j
  rw [unscaled, mulVec_diagonal, scaledStep, Vector.get_ofFn,
    inv_mul_cancel_left₀ (ne_of_gt (positive _))]
  rfl

theorem exists_scaledStep (apart : Function.Injective s.pivots.get) (y : Vector ℝ n) :
    ∃ x, s.scaledStep diag x = y := by
  refine ⟨scatter s.pivots (.ofFn fun j => y.get j / diag.get (s.pivots.get j)) y,
    eq_of_get_eq fun j => ?_⟩
  rw [scaledStep, Vector.get_ofFn, get_scatter apart, Vector.get_ofFn,
    mul_div_cancel₀ _ (ne_of_gt (positive _))]

theorem unscaled_isUnit : IsUnit (s.unscaled diag) :=
  isUnit_diagonal.mpr (Pi.isUnit_iff.mpr fun _ => (inv_ne_zero (ne_of_gt (positive _))).isUnit)

/-- In the scaled system all unknowns are damped evenly. -/
theorem ridge_scaledUpper : ridge (s.scaledUpper diag tall) a =
    s.unscaled diag * ((s.r.upper tall)ᵀ * s.r.upper tall +
      a • diagonal fun i => diag.get (s.pivots.get i) ^ 2) * s.unscaled diag := by
  have even : s.unscaled diag * (diagonal fun i => diag.get (s.pivots.get i) ^ 2) *
      s.unscaled diag = 1 := by
    rw [unscaled, diagonal_mul_diagonal, diagonal_mul_diagonal, ← diagonal_one]
    refine congrArg diagonal (funext fun i => ?_)
    field_simp [ne_of_gt (positive (s.pivots.get i))]
  rw [Matrix.mul_add, Matrix.add_mul, Matrix.mul_smul, Matrix.smul_mul, even, ridge, scaledUpper,
    transpose_mul, s.unscaled_transpose]
  simp only [Matrix.mul_assoc]

theorem gram_mul_unscaled {t : Matrix (Fin n) (Fin n) ℝ}
    (gram : tᵀ * t = (s.r.upper tall)ᵀ * s.r.upper tall +
      a • diagonal fun i => diag.get (s.pivots.get i) ^ 2) :
    (t * s.unscaled diag)ᵀ * (t * s.unscaled diag) = ridge (s.scaledUpper diag tall) a := by
  rw [ridge_scaledUpper positive, ← gram, transpose_mul, s.unscaled_transpose]
  simp only [Matrix.mul_assoc]

/-- The damped normal equations become equations damped evenly. -/
theorem solves_iff_ridge {x : Vector ℝ n} : s.Solves tall diag a x ↔
    ridge (s.scaledUpper diag tall) a *ᵥ (s.scaledStep diag x).get =
      (s.steepness diag tall).get := by
  have left : ridge (s.scaledUpper diag tall) a *ᵥ (s.scaledStep diag x).get =
      s.unscaled diag *ᵥ (((s.r.upper tall)ᵀ * s.r.upper tall +
        a • diagonal fun i => diag.get (s.pivots.get i) ^ 2) *ᵥ (x.get ∘ s.pivots.get)) := by
    rw [ridge_scaledUpper positive, ← mulVec_mulVec, unscaled_scaledStep positive,
      ← mulVec_mulVec]
  have right : (s.steepness diag tall).get =
      s.unscaled diag *ᵥ ((s.r.upper tall)ᵀ *ᵥ s.qtb.get) := by
    ext j
    rw [unscaled, mulVec_diagonal, steepness, Vector.get_ofFn, ← gradient_eq, div_eq_inv_mul]
  rw [left, right]
  exact (mulVec_injective_iff_isUnit.mpr (unscaled_isUnit positive)).eq_iff.symm

end

/-! ### The boundary of the region -/

/-- A triangle of full rank, with its columns in some order and positive scale factors. -/
structure Regular (tall : n ≤ m) (s : Triangular ℝ m n) (diag : Vector ℝ n) : Prop where
  permutation : Function.Bijective s.pivots.get
  positive : ∀ j, 0 < diag.get j
  nonzero : ∀ j, s.r.lead tall j j ≠ 0

/-- The damping `a` leads to a step `z` that reaches exactly to the boundary. -/
structure Boundary (tall : n ≤ m) (s : Triangular ℝ m n) (diag : Vector ℝ n) (delta a : ℝ)
    (z : Vector ℝ n) : Prop extends Regular tall s diag where
  radius : 0 < delta
  damped : 0 < a
  solves : s.Solves tall diag a z
  length : scaledLength diag z = delta

theorem GaussNewton.solves {g : Vector ℝ n} (regular : ∀ j, s.r.lead tall j j ≠ 0)
    (h : s.GaussNewton tall g) : s.Solves tall diag 0 g := by
  have rank := rank_of_regular regular
  have solved : s.r.upper tall *ᵥ (g.get ∘ s.pivots.get) = s.qtb.get :=
    funext fun i => h.solved i (rank.symm ▸ i.isLt)
  dsimp only [Solves]
  rw [zero_smul, add_zero, ← mulVec_mulVec, solved]

namespace Regular

variable (h : s.Regular tall diag)
include h

theorem scaled_isUnit (nonneg : 0 ≤ a) : IsUnit (ridge (s.scaledUpper diag tall) a) := by
  refine isUnit_ridge nonneg ?_
  have unit := (upper_isUnit h.nonzero).mul (@unscaled_isUnit m n s diag h.positive)
  rw [← @gram_mul_unscaled m n tall s diag 0 h.positive (s.r.upper tall)
    (by rw [zero_smul, add_zero])]
  exact ((s.r.upper tall * s.unscaled diag).isUnit_transpose.mpr unit).mul unit

/-- A step that leaves the region can be damped to reach exactly to its boundary. -/
theorem exists_boundary (radius : 0 < delta) {g : Vector ℝ n} (undamped : s.GaussNewton tall g)
    (long : delta < scaledLength diag g) : ∃ a z, s.Boundary tall diag delta a z := by
  rw [← norm_scaledStep h.permutation] at long
  obtain ⟨a, damped, y, solves, length⟩ := exists_norm_eq (h.scaled_isUnit le_rfl)
    ((solves_iff_ridge h.positive).mp (undamped.solves h.nonzero)) radius long
  obtain ⟨z, rfl⟩ := exists_scaledStep h.positive h.permutation.injective y
  exact ⟨a, z, { h with
    radius, damped
    solves := (solves_iff_ridge h.positive).mpr solves
    length := (norm_scaledStep h.permutation z).symm.trans length }⟩

end Regular

namespace Boundary

variable {x z : Vector ℝ n} (h : s.Boundary tall diag delta a z)
include h

theorem steep : (s.steepness diag tall).get ≠ 0 := by
  refine ne_zero_of_norm_pos (h.scaled_isUnit (le_of_lt h.damped))
    ((solves_iff_ridge h.positive).mp h.solves) ?_
  rw [norm_scaledStep h.permutation, h.length]
  exact h.radius

/-- With more damping a step stays inside the region. -/
theorem length_lt (more : a < c) (solves : s.Solves tall diag c x) :
    scaledLength diag x < delta := by
  rw [← h.length, ← norm_scaledStep h.permutation, ← norm_scaledStep h.permutation]
  exact norm_lt_of_lt (le_of_lt h.damped) (h.scaled_isUnit (le_of_lt h.damped)) more h.steep
    ((solves_iff_ridge h.positive).mp h.solves) ((solves_iff_ridge h.positive).mp solves)

/-- With less damping it leaves the region. -/
theorem lt_length (nonneg : 0 ≤ c) (less : c < a) (solves : s.Solves tall diag c x) :
    delta < scaledLength diag x := by
  rw [← h.length, ← norm_scaledStep h.permutation, ← norm_scaledStep h.permutation]
  exact norm_lt_of_lt nonneg (h.scaled_isUnit nonneg) less h.steep
    ((solves_iff_ridge h.positive).mp solves) ((solves_iff_ridge h.positive).mp h.solves)

theorem length_eq (solves : s.Solves tall diag a x) : scaledLength diag x = delta := by
  rw [solves.unique h.permutation h.positive h.damped h.solves, h.length]

/-- So the length of a step tells on which side of `a` its damping is. -/
theorem le_length_iff (nonneg : 0 ≤ c) (solves : s.Solves tall diag c x) :
    delta ≤ scaledLength diag x ↔ c ≤ a := by
  constructor
  · intro long
    by_contra! more
    exact absurd (h.length_lt more solves) (not_lt.mpr long)
  · intro le
    rcases eq_or_lt_of_le le with rfl | less
    · exact (h.length_eq solves).ge
    · exact le_of_lt (h.lt_length nonneg less solves)

theorem length_le_iff (nonneg : 0 ≤ c) (solves : s.Solves tall diag c x) :
    scaledLength diag x ≤ delta ↔ a ≤ c := by
  constructor
  · intro short
    by_contra! less
    exact absurd (h.lt_length nonneg less solves) (not_lt.mpr short)
  · intro le
    rcases eq_or_lt_of_le le with rfl | more
    · exact (h.length_eq solves).le
    · exact le_of_lt (h.length_lt more solves)

/-- No other damping leads to the boundary. -/
theorem unique (nonneg : 0 ≤ c) :
    (∃ x, s.Solves tall diag c x ∧ scaledLength diag x = delta) ↔ c = a := by
  constructor
  · rintro ⟨x, solves, length⟩
    exact le_antisymm ((h.le_length_iff nonneg solves).mp (le_of_eq length.symm))
      ((h.length_le_iff nonneg solves).mp (le_of_eq length))
  · rintro rfl
    exact ⟨z, h.solves, h.length⟩

/-- The length of the gradient bounds the damping. -/
theorem le_gradientBound : a ≤ norm (s.steepness diag tall).toList / delta := by
  have bound := mul_norm_le ((solves_iff_ridge h.positive).mp h.solves)
  rw [norm_scaledStep h.permutation, h.length] at bound
  exact (le_div_iff₀ h.radius).mpr bound

/-- A Newton correction from a step that is known with a root `t` of the damped products of the
columns does not go beyond the damping that leads to the boundary. -/
theorem correction_le {t : Matrix (Fin n) (Fin n) ℝ} (unit : IsUnit t)
    (gram : tᵀ * t = (s.r.upper tall)ᵀ * s.r.upper tall +
      c • diagonal fun i => diag.get (s.pivots.get i) ^ 2)
    (nonneg : 0 ≤ c) (solves : s.Solves tall diag c x) {w : Vector ℝ n} (buffer : Vector ℝ n)
    (normal : tᵀ *ᵥ w.get = (s.boundaryNormal diag (.ofFn fun j => diag.get j * x.get j)
      (scaledLength diag x) buffer).get) :
    c + (scaledLength diag x - delta) / delta / norm w.toList / norm w.toList ≤ a := by
  have scaled : (t * s.unscaled diag)ᵀ *ᵥ w.get =
      (norm (s.scaledStep diag x).toList)⁻¹ • (s.scaledStep diag x).get := by
    rw [transpose_mul, s.unscaled_transpose, ← mulVec_mulVec, normal]
    ext j
    have nonzero := ne_of_gt (h.positive (s.pivots.get j))
    rw [unscaled, mulVec_diagonal, get_boundaryNormal, Vector.get_ofFn,
      norm_scaledStep h.permutation, inv_mul_cancel_left₀ nonzero, Pi.smul_apply, smul_eq_mul,
      scaledStep, Vector.get_ofFn, div_eq_inv_mul]
  have newton := newton_le nonneg (unit.mul (unscaled_isUnit h.positive))
    (gram_mul_unscaled h.positive gram) (le_of_lt h.damped) h.steep
    ((solves_iff_ridge h.positive).mp solves) ((solves_iff_ridge h.positive).mp h.solves) scaled
  rwa [norm_scaledStep h.permutation, norm_scaledStep h.permutation, h.length] at newton

end Boundary

end Triangular

/-! ### Trials -/

namespace Refinement

variable {s : Triangular ℝ m n} {diag z : Vector ℝ n} {delta a : ℝ}

/-- After a trial, substituting forwards solves transposed systems with a root of the damped
products of the columns. -/
theorem attempt_transpose (positive : ∀ j, 0 < diag.get j) {state : Refinement ℝ m n}
    (h : state.Sound tall s) :
    let tried := (state.attempt tall s diag delta).1
    ∃ t : Matrix (Fin n) (Fin n) ℝ, IsUnit t ∧
      tᵀ * t = (s.r.upper tall)ᵀ * s.r.upper tall +
        tried.par • (diagonal fun i => diag.get (s.pivots.get i) ^ 2) ∧
      ∀ w, tᵀ *ᵥ (Triangular.solveDampedTranspose tall tried.r tried.buffers.sdiag w).get =
        w.get := by
  intro tried
  let system : Triangular ℝ m n := { s with r := state.r }
  have nonzero := scaledDamping_ne_zero positive h.par
  refine ⟨_, @Triangular.absorbed_isUnit m n tall system _ nonzero s.qtb, ?_,
    fun w => system.damped_transpose nonzero _ _ _ w⟩
  rw [Triangular.absorbed_gram]
  simp only [get_overwrite]
  rw [h.same.upper_eq]
  exact congrArg _ (Triangular.diagonal_sqrt_mul_sq (le_of_lt (damping_pos h.par)) _)

/-- The Newton correction after a trial. -/
noncomputable def change (tall : n ≤ m) (s : Triangular ℝ m n) (diag : Vector ℝ n) (delta : ℝ)
    (tried : Refinement ℝ m n) : ℝ :=
  let slope := norm (Triangular.solveDampedTranspose tall tried.r tried.buffers.sdiag
    (s.boundaryNormal diag tried.buffers.scaled tried.length tried.buffers.direction)).toList
  tried.error / delta / slope / slope

theorem attempt_error (s : Triangular ℝ m n) (diag : Vector ℝ n) (delta : ℝ)
    (state : Refinement ℝ m n) : (state.attempt tall s diag delta).1.error =
      scaledLength diag (state.attempt tall s diag delta).1.buffers.x - delta :=
  congrArg (· - delta) (attempt_length s diag delta state)

/-- The bounds of a search that enclose the damping `a`. The damping to try keeps above the lower
one. -/
structure Bracketed (tall : n ≤ m) (s : Triangular ℝ m n) (a : ℝ) (state : Refinement ℝ m n) :
    Prop where
  same : s.r.SameUpper tall state.r
  positive : 0 < state.lower
  above : state.lower ≤ state.par
  lower : state.lower ≤ a
  upper : a ≤ state.upper

namespace Bracketed

variable {state : Refinement ℝ m n} (h : state.Bracketed tall s a)
include h

theorem sound : state.Sound tall s where
  par := le_of_lt (h.positive.trans_le h.above)
  lower := le_of_lt h.positive
  same := h.same

theorem damping_eq : state.damping = state.par :=
  if_neg fun zero => ne_of_gt (h.positive.trans_le h.above) (beq_iff_eq.mp zero)

theorem attempt_par : (state.attempt tall s diag delta).1.par = state.par :=
  h.damping_eq

/-- A trial changes nothing about the bounds. -/
theorem attempt : (state.attempt tall s diag delta).1.Bracketed tall s a where
  same := h.same.trans (attempt_sameUpper ..)
  positive := h.positive
  above := h.above.trans_eq h.attempt_par.symm
  lower := h.lower
  upper := h.upper

variable (boundary : s.Boundary tall diag delta a z)
include boundary

theorem solves : s.Solves tall diag state.par (state.attempt tall s diag delta).1.buffers.x := by
  have solved := @attempt_solves m n tall s diag delta boundary.positive
    boundary.permutation.injective state h.sound
  rwa [h.attempt_par] at solved

/-- A Newton correction does not go beyond the damping that leads to the boundary. -/
theorem change_le :
    state.par + (state.attempt tall s diag delta).1.change tall s diag delta ≤ a := by
  obtain ⟨t, unit, gram, transpose⟩ := @attempt_transpose m n tall s diag delta boundary.positive
    state h.sound
  rw [h.attempt_par] at gram
  have newton := boundary.correction_le unit gram h.sound.par (h.solves boundary)
    (state.attempt tall s diag delta).1.buffers.direction (transpose _)
  have scaled : (state.attempt tall s diag delta).1.buffers.scaled =
      .ofFn fun j => diag.get j * (state.attempt tall s diag delta).1.buffers.x.get j :=
    attempt_scaled ..
  rwa [← attempt_error, ← attempt_length s diag delta state, ← scaled] at newton

/-- The error of a trial tells on which side of `a` its damping is. -/
theorem error_nonneg_iff : 0 ≤ (state.attempt tall s diag delta).1.error ↔ state.par ≤ a := by
  rw [attempt_error, sub_nonneg]
  exact boundary.le_length_iff h.sound.par (h.solves boundary)

theorem error_nonpos_iff : (state.attempt tall s diag delta).1.error ≤ 0 ↔ a ≤ state.par := by
  rw [attempt_error, sub_nonpos]
  exact boundary.length_le_iff h.sound.par (h.solves boundary)

theorem change_nonneg (below : state.par ≤ a) :
    0 ≤ (state.attempt tall s diag delta).1.change tall s diag delta := by
  have error := (h.error_nonneg_iff boundary).mpr below
  exact div_nonneg (div_nonneg (div_nonneg error (le_of_lt boundary.radius)) (norm_nonneg _))
    (norm_nonneg _)

/-- A correction keeps the bounds on their sides of the damping, and does not go beyond it. From
below it never goes back. -/
theorem correct :
    let next := (state.attempt tall s diag delta).1.correct tall s diag delta
    next.Bracketed tall s a ∧ next.par ≤ a ∧ (state.par ≤ a → state.par ≤ next.par) := by
  intro next
  set tried := (state.attempt tall s diag delta).1
  have now : tried.Bracketed tall s a := h.attempt
  have par : tried.par = state.par := h.attempt_par
  have lower : next.lower = if tried.error > 0 then max state.lower tried.par else state.lower :=
    rfl
  have upper : next.upper = if tried.error < 0 then min state.upper tried.par else state.upper :=
    rfl
  have corrected : next.par = max next.lower (tried.par + tried.change tall s diag delta) :=
    rfl
  rw [par] at lower upper corrected
  have bracketed : next.Bracketed tall s a := by
    refine ⟨now.same, ?_, le_max_left _ _, ?_, ?_⟩
    · rw [lower]
      split
      · exact lt_max_of_lt_left h.positive
      · exact h.positive
    · rw [lower]
      split
      next long => exact max_le h.lower ((h.error_nonneg_iff boundary).mp (le_of_lt long))
      next => exact h.lower
    · rw [upper]
      split
      next short => exact le_min h.upper ((h.error_nonpos_iff boundary).mp (le_of_lt short))
      next => exact h.upper
  rw [corrected]
  refine ⟨bracketed, max_le bracketed.lower (h.change_le boundary), fun below => ?_⟩
  exact le_max_of_le_right (le_add_of_nonneg_right (h.change_nonneg boundary below))

end Bracketed

section

variable {start : Refinement ℝ m n} (h : start.Bracketed tall s a)
  (boundary : s.Boundary tall diag delta a z)
include h boundary

theorem pass_bracketed (k : Nat) : (start.pass tall s diag delta k).Bracketed tall s a := by
  induction k with
  | zero => exact h
  | succ k ih =>
    rw [pass_succ]
    exact (ih.correct boundary).1

/-- From the second trial on, the dampings approach the one that leads to the boundary from below,
and the steps are no shorter than the radius. -/
theorem tried_below (k : Nat) :
    let tried := start.tried tall s diag delta (k + 1)
    tried.par ≤ a ∧ s.Solves tall diag tried.par tried.buffers.x ∧
      delta ≤ scaledLength diag tried.buffers.x ∧
      tried.par ≤ (start.tried tall s diag delta (k + 2)).par := by
  intro tried
  have now := pass_bracketed h boundary (k + 1)
  have next := pass_bracketed h boundary (k + 2)
  have par : tried.par = (start.pass tall s diag delta (k + 1)).par := now.attempt_par
  have later : (start.tried tall s diag delta (k + 2)).par =
      (start.pass tall s diag delta (k + 2)).par := next.attempt_par
  have below : tried.par ≤ a := by
    rw [par, pass_succ]
    exact ((pass_bracketed h boundary k).correct boundary).2.1
  have solves : s.Solves tall diag tried.par tried.buffers.x := by
    rw [par]
    exact now.solves boundary
  have nonneg : 0 ≤ tried.par := by
    rw [par]
    exact now.sound.par
  refine ⟨below, solves, (boundary.le_length_iff nonneg solves).mpr below, ?_⟩
  rw [later, pass_succ _ _ _ _ (k + 1), par]
  exact (now.correct boundary).2.2 (par ▸ below)

end

end Refinement

/-! ### Searches -/

namespace Triangular

variable {s : Triangular ℝ m n} {diag z : Vector ℝ n} {delta par a : ℝ}

/-- The first bounds enclose the damping that leads to the boundary. -/
theorem opened_bracketed (boundary : s.Boundary tall diag delta a z) {buffers : SearchBuffers ℝ n}
    (long : delta < s.undampedLength tall diag buffers) :
    (s.opened tall diag buffers delta par).Bracketed tall s a := by
  have positive : 0 < (s.opened tall diag buffers delta par).lower :=
    opened_lower_pos boundary.permutation.injective boundary.positive boundary.nonzero
      boundary.radius long
  have undamped : s.GaussNewton tall (s.undampedStep tall diag buffers).x :=
    undampedStep_gaussNewton boundary.permutation.injective diag buffers
  have lower : (s.opened tall diag buffers delta par).lower ≤ a := by
    have newton := boundary.correction_le (upper_isUnit boundary.nonzero)
      (by rw [zero_smul, add_zero]) le_rfl (undamped.solves boundary.nonzero)
      (s.undampedStep tall diag buffers).direction (forwardSubstitute_solves boundary.nonzero _)
    rwa [zero_add, ← undampedLength_eq, ← undampedStep_scaled,
      ← opened_lower boundary.nonzero] at newton
  have upper : a ≤ (s.opened tall diag buffers delta par).upper := by
    have steep := boundary.le_gradientBound
    have bound : (s.opened tall diag buffers delta par).upper =
        gradientBound delta (norm (s.steepness diag tall).toList) :=
      congrArg (fun v : Vector ℝ n => gradientBound delta (norm v.toList)) (scaledGradient_real ..)
    have nonzero : norm (s.steepness diag tall).toList / delta ≠ 0 :=
      ne_of_gt (boundary.damped.trans_le steep)
    rwa [bound, gradientBound, if_neg fun zero => nonzero (beq_iff_eq.mp zero)]
  refine ⟨.refl tall s.r, positive, ?_, lower, upper⟩
  -- The estimate is cut off at the bounds, and the lower one is positive.
  set start := s.opened tall diag buffers delta par
  have clamped : start.lower ≤ min (max par start.lower) start.upper :=
    le_min (le_max_right _ _) (lower.trans upper)
  have first : start.par = min (max par start.lower) start.upper :=
    if_neg fun zero => ne_of_gt (positive.trans_le clamped) (beq_iff_eq.mp zero)
  exact clamped.trans_eq first.symm

/-- Without errors of rounding, for a triangle of full rank whose undamped step leaves the region by
more than a tenth of the radius: there is one damping `a` whose step is as long as the radius, and
it is positive. Whenever a search makes a trial, its bounds enclose `a`. From the second trial on,
the dampings tried do not decrease nor exceed `a`, so that their steps are no shorter than the
radius. A search that ends after two to nine trials has therefore found a step whose length is at
least the radius, and exceeds it by a tenth at most. -/
theorem search_bracketed (tall : n ≤ m) (s : Triangular ℝ m n)
    (permutation : Function.Bijective s.pivots.get) (regular : ∀ j, s.r.upper tall j j ≠ 0)
    {diag : Vector ℝ n} (positive : ∀ j, 0 < diag.get j) {delta : ℝ} (radius : 0 < delta) (par : ℝ)
    (buffers : SearchBuffers ℝ n) {g : Vector ℝ n}
    (undamped : s.GaussNewton tall g) (long : 1.1 * delta < scaledLength diag g) :
    let found := s.search tall diag delta par buffers
    let start := s.opened tall diag buffers delta par
    let pass := fun k => start.pass tall s diag delta k
    let tried := fun k => start.tried tall s diag delta k
    ∃ a > 0,
      (∀ c, 0 ≤ c → ((∃ x, s.Solves tall diag c x ∧ scaledLength diag x = delta) ↔ c = a)) ∧
      (1 ≤ found.trials ∧ found = (tried (found.trials - 1)).found) ∧
      (∀ k < found.trials, (pass k).lower ≤ a ∧ a ≤ (pass k).upper) ∧
      (∀ k, 1 ≤ k → k < found.trials →
        (tried k).par ≤ a ∧ s.Solves tall diag (tried k).par (tried k).buffers.x ∧
          delta ≤ scaledLength diag (tried k).buffers.x ∧
          (k + 1 < found.trials → (tried k).par ≤ (tried (k + 1)).par)) ∧
      (2 ≤ found.trials → found.trials ≤ 9 →
        delta ≤ scaledLength diag found.buffers.x ∧
          scaledLength diag found.buffers.x ≤ 1.1 * delta) := by
  intro found start pass tried
  have system : s.Regular tall diag :=
    ⟨permutation, positive, fun j => (s.r.upper_diagonal j).symm.trans_ne (regular j)⟩
  have step : (s.undampedStep tall diag buffers).x = g :=
    (undampedStep_gaussNewton permutation.injective diag buffers).unique permutation undamped
  have length : s.undampedLength tall diag buffers = scaledLength diag g := by
    rw [undampedLength_eq, step]
  have beyond : delta < scaledLength diag g := by linarith
  obtain ⟨a, z, boundary⟩ := system.exists_boundary radius undamped beyond
  have bracketed : start.Bracketed tall s a := opened_bracketed boundary (length ▸ beyond)
  obtain ⟨k, within, here, trials, last⟩ := @search_ends ℝ _ m n tall s diag delta par buffers
    (by rw [length]; linarith)
  have here : found = (tried k).found := here
  have trials : found.trials = k + 1 := trials
  refine ⟨a, boundary.damped, fun c nonneg => boundary.unique nonneg, ⟨by omega, ?_⟩,
    fun k _ => ?_, fun k first before => ?_, fun two nine => ?_⟩
  · rw [trials]
    exact here
  · have enclosed := Refinement.pass_bracketed bracketed boundary k
    exact ⟨enclosed.lower, enclosed.upper⟩
  · obtain ⟨k, rfl⟩ := Nat.exists_eq_add_of_le' first
    obtain ⟨below, solves, long, forward⟩ := Refinement.tried_below bracketed boundary k
    exact ⟨below, solves, long, fun _ => forward⟩
  · obtain ⟨k, rfl⟩ := Nat.exists_eq_add_of_le' (show 1 ≤ k by omega)
    obtain ⟨-, -, long, -⟩ := Refinement.tried_below bracketed boundary k
    have enclosed := Refinement.pass_bracketed bracketed boundary (k + 1)
    have close := Refinement.settled_of_lower enclosed.positive
      (last (show k + 1 + 1 < 10 by omega))
    have upper : scaledLength diag (tried (k + 1)).buffers.x - delta ≤ 0.1 * delta :=
      (abs_le.mp close).2
    have short : scaledLength diag (tried (k + 1)).buffers.x ≤ 1.1 * delta := by linarith
    rw [here]
    exact ⟨long, short⟩

/-- A triangle of full rank, in exchanged order. -/
noncomputable def exchanged : Triangular ℝ 2 2 :=
  { r := #v[#v[1, 0], #v[1, 1]], pivots := .ofFn Fin.rev, qtb := #v[0, 1] }

/-- Its undamped step is `1` and `-1`, of length five if scaled by three and four. -/
theorem search_bracketed_exchanged :
    Function.Bijective exchanged.pivots.get ∧
      (∀ j, exchanged.r.upper (Nat.le_refl 2) j j ≠ 0) ∧
      (∀ j, 0 < (#v[3, 4] : Vector ℝ 2).get j) ∧ (0 : ℝ) < 1 ∧
      exchanged.GaussNewton (Nat.le_refl 2) #v[1, -1] ∧
      1.1 * 1 < scaledLength #v[3, 4] #v[1, -1] ∧
      let blank : SearchBuffers ℝ 2 := ⟨#v[0, 0], #v[0, 0], #v[0, 0], #v[0, 0]⟩
      let start := exchanged.opened (Nat.le_refl 2) #v[3, 4] blank 1 0
      ∃ a > 0, start.lower ≤ a ∧ a ≤ start.upper := by
  have order : exchanged.pivots.get = Fin.rev := funext fun j => Vector.get_ofFn ..
  have bijective : Function.Bijective exchanged.pivots.get := order ▸ Fin.rev_bijective
  have diagonal (j : Fin 2) : exchanged.r.lead (Nat.le_refl 2) j j ≠ 0 := by
    fin_cases j <;> exact one_ne_zero
  have regular (j : Fin 2) : exchanged.r.upper (Nat.le_refl 2) j j ≠ 0 :=
    (exchanged.r.upper_diagonal j).trans_ne (diagonal j)
  have positive (j : Fin 2) : 0 < (#v[3, 4] : Vector ℝ 2).get j := by
    fin_cases j
    · exact three_pos
    · exact four_pos
  have undamped : exchanged.GaussNewton (Nat.le_refl 2) #v[1, -1] := {
    zeros := fun j past => absurd j.isLt
      (not_lt.mpr ((rank_of_regular diagonal).symm.trans_le past))
    solved := fun i _ => by
      have row := Fin.sum_univ_two fun l : Fin 2 =>
        exchanged.r.upper (Nat.le_refl 2) i l * (#v[1, -1] : Vector ℝ 2).get l.rev
      rw [order]
      refine row.trans ?_
      fin_cases i
      · change (1 : ℝ) * -1 + 1 * 1 = 0
        norm_num
      · change (0 : ℝ) * -1 + 1 * 1 = 1
        norm_num }
  have length : scaledLength (#v[3, 4] : Vector ℝ 2) #v[1, -1] = 5 := by
    have squares : ((3 : ℝ) * 1) ^ 2 + (4 * -1) ^ 2 = 5 ^ 2 := by norm_num
    rw [scaledLength, norm_real, Fin.sum_univ_two]
    exact (congrArg _ squares).trans (Real.sqrt_sq (by norm_num))
  have long : 1.1 * 1 < scaledLength (#v[3, 4] : Vector ℝ 2) #v[1, -1] := by
    rw [length]
    norm_num
  obtain ⟨a, damped, -, ⟨some, -⟩, bounds, -⟩ := search_bracketed (Nat.le_refl 2) exchanged
    bijective regular positive one_pos 0 ⟨#v[0, 0], #v[0, 0], #v[0, 0], #v[0, 0]⟩ undamped long
  exact ⟨bijective, regular, positive, one_pos, undamped, long, a, damped, bounds 0 some⟩

end Triangular

end LeastSquares
