import LeastSquares.Proofs.Exact.Division
import LeastSquares.Proofs.Exact.Resemblance
import LeastSquares.Proofs.Exact.Truncation

/-!
# The length of the step that is found

Whatever the rank of the triangle, there is one undamped step, and for each positive damping one
solution of the damped normal equations. A search without errors of rounding takes the undamped step
if it is short enough, and else a solution for a positive damping. With full rank the lower bound
for the damping stays positive, so that nothing but the length of the step ends the search before
the tenth trial.
-/
namespace LeastSquares

open Matrix

variable {m n : Nat} {tall : n ≤ m}

/-- `|D x|`. -/
noncomputable def scaledLength (diag x : Vector ℝ n) : ℝ :=
  norm (Vector.ofFn fun j => diag.get j * x.get j).toList

namespace Triangular

/-! ### The undamped step -/

/-- The step `x` solves the leading block up to the first zero on the diagonal of `R`, and is zero
from there on, in the order of the pivots. -/
structure GaussNewton (tall : n ≤ m) (s : Triangular ℝ m n) (x : Vector ℝ n) : Prop where
  zeros : ∀ j : Fin n, s.rank tall ≤ j.val → x.get (s.pivots.get j) = 0
  solved : ∀ i : Fin n, i.val < s.rank tall →
    (s.r.upper tall *ᵥ (x.get ∘ s.pivots.get)) i = s.qtb.get i

variable {s : Triangular ℝ m n} {diag : Vector ℝ n} {delta par : ℝ} {buffers : SearchBuffers ℝ n}

theorem eq_of_pivoted (permutation : Function.Bijective s.pivots.get) {x y : Vector ℝ n}
    (same : x.get ∘ s.pivots.get = y.get ∘ s.pivots.get) : x = y :=
  eq_of_get_eq (congrFun (permutation.surjective.injective_comp_right same))

/-- There is no other. -/
theorem GaussNewton.unique (permutation : Function.Bijective s.pivots.get) {x y : Vector ℝ n}
    (h : s.GaussNewton tall x) (h' : s.GaussNewton tall y) : x = y := by
  set u := x.get ∘ s.pivots.get - y.get ∘ s.pivots.get with u_eq
  have zeros (j : Fin n) (past : s.rank tall ≤ j.val) : u j = 0 :=
    sub_eq_zero.mpr ((h.zeros j past).trans (h'.zeros j past).symm)
  have image : s.r.upper tall *ᵥ u = 0 := by
    funext i
    by_cases inside : i.val < s.rank tall
    · rw [u_eq, mulVec_sub, Pi.sub_apply, h.solved i inside, h'.solved i inside, sub_self]
      rfl
    · -- The row meets nothing of the leading block.
      change ∑ j, s.r.upper tall i j * u j = 0
      refine Finset.sum_eq_zero fun j _ => ?_
      rcases lt_or_ge j i with before | after
      · rw [s.r.upper_lower i j before, zero_mul]
      · rw [zeros j ((not_lt.mp inside).trans after), mul_zero]
  exact eq_of_pivoted permutation (sub_eq_zero.mp (eq_zero_of_leading zeros image))

theorem undampedStep_gaussNewton (apart : Function.Injective s.pivots.get) (diag : Vector ℝ n)
    (buffers : SearchBuffers ℝ n) :
    s.GaussNewton tall (s.undampedStep tall diag buffers).x := by
  have order : (s.undampedStep tall diag buffers).x.get ∘ s.pivots.get =
      (s.undamped tall buffers.direction).get :=
    funext fun j => get_scatter apart ..
  have reached : s.Reached tall 0 _ := s.undamped_reached buffers.direction
  refine ⟨fun j past => (congrFun order j).trans (reached.zeros j past), fun i inside => ?_⟩
  rw [order, ← reached.found i inside (Nat.zero_le _)]
  exact sum_masked (i ≤ ·) ..

/-- A search measures the undamped step it has found. -/
theorem undampedLength_eq (s : Triangular ℝ m n) (diag : Vector ℝ n)
    (buffers : SearchBuffers ℝ n) : s.undampedLength tall diag buffers =
      scaledLength diag (s.undampedStep tall diag buffers).x :=
  congrArg (fun v : Vector ℝ n => norm v.toList) (undampedStep_scaled ..)

/-! ### Damped steps -/

theorem permutation_transpose_mulVec (s : Triangular ℝ m n) (v : Fin n → ℝ) :
    s.permutationᵀ *ᵥ v = v ∘ s.pivots.get := by
  ext j
  simp [permutation, mulVec, dotProduct, one_apply]

/-- The damped normal equations with the permutation as a matrix. -/
theorem solves_iff (apart : Function.Injective s.pivots.get) {x : Vector ℝ n} :
    s.Solves tall diag par x ↔
      ((s.r.upper tall)ᵀ * s.r.upper tall +
          par • (s.permutationᵀ * diagonal diag.get ^ 2 * s.permutation)) *ᵥ
        (s.permutationᵀ *ᵥ x.get) = (s.r.upper tall)ᵀ *ᵥ s.qtb.get := by
  rw [permutation_transpose_mulVec, permutation_transpose_mul, mul_permutation,
    submatrix_submatrix, diagonal_pow, Function.comp_id, Function.id_comp,
    submatrix_diagonal _ _ apart]
  rfl

/-- A positive damping admits one solution. -/
theorem Solves.unique (permutation : Function.Bijective s.pivots.get)
    (positive : ∀ j, 0 < diag.get j) (damped : 0 < par) {x y : Vector ℝ n}
    (h : s.Solves tall diag par x) (h' : s.Solves tall diag par y) : x = y := by
  have nonzero (j : Fin n) : √par * diag.get (s.pivots.get j) ≠ 0 :=
    mul_ne_zero (ne_of_gt (Real.sqrt_pos.mpr damped)) (ne_of_gt (positive _))
  have none : x.get ∘ s.pivots.get - y.get ∘ s.pivots.get = 0 := by
    refine @eq_zero_of_damped _ _ (s.r.upper tall) _ _ nonzero ?_
    rw [diagonal_sqrt_mul_sq (le_of_lt damped), mulVec_sub, h, h', sub_self]
  exact eq_of_pivoted permutation (sub_eq_zero.mp none)

/-! ### Bounds -/

theorem rank_of_regular (regular : ∀ j, s.r.lead tall j j ≠ 0) : s.rank tall = n :=
  firstIndex_eq fun j => beq_eq_false_iff_ne.mpr (regular j)

/-- With full rank the lower bound is the Newton correction at zero. -/
theorem opened_lower (regular : ∀ j, s.r.lead tall j j ≠ 0) :
    let start := s.undampedStep tall diag buffers
    let length := s.undampedLength tall diag buffers
    let slope := norm (s.forwardSubstitute tall
      (s.boundaryNormal diag start.scaled length start.direction)).toList
    (s.opened tall diag buffers delta par).lower = (length - delta) / delta / slope / slope := by
  have full : ¬ s.rank tall < n := not_lt.mpr (rank_of_regular regular).ge
  simp only [opened, bracket, if_neg full]

/-- So it bounds the damping away from zero. -/
theorem opened_lower_pos (apart : Function.Injective s.pivots.get) (positive : ∀ j, 0 < diag.get j)
    (regular : ∀ j, s.r.lead tall j j ≠ 0) (radius : 0 < delta)
    (long : delta < s.undampedLength tall diag buffers) :
    0 < (s.opened tall diag buffers delta par).lower := by
  rw [opened_lower regular]
  set start := s.undampedStep tall diag buffers
  set length := s.undampedLength tall diag buffers
  have slope : 0 < norm (s.forwardSubstitute tall
      (s.boundaryNormal diag start.scaled length start.direction)).toList := by
    have boundary := boundaryNormal_ne_zero positive apart (ne_of_gt (lt_trans radius long))
      start.direction
    obtain ⟨j, nonzero⟩ := forwardSubstitute_ne_zero regular boundary
    exact lt_of_le_of_ne (norm_nonneg _) fun zero =>
      nonzero ((norm_eq_zero_iff _).mp zero.symm j)
  exact div_pos (div_pos (div_pos (sub_pos.mpr long) radius) slope) slope

end Triangular

/-! ### Trials -/

namespace Refinement

variable {s : Triangular ℝ m n} {diag : Vector ℝ n} {delta : ℝ}

/-- No correction lowers the lower bound. -/
theorem pass_lower_le (k : Nat) (start : Refinement ℝ m n) :
    start.lower ≤ (start.pass tall s diag delta k).lower := by
  induction k with
  | zero => exact le_rfl
  | succ k ih =>
    rw [pass_succ]
    refine ih.trans ?_
    change (start.tried tall s diag delta k).lower ≤ _
    simp only [correct, larger_real]
    split
    · exact le_max_left _ _
    · exact le_rfl

theorem attempt_length (s : Triangular ℝ m n) (diag : Vector ℝ n) (delta : ℝ)
    (state : Refinement ℝ m n) : (state.attempt tall s diag delta).1.length =
      scaledLength diag (state.attempt tall s diag delta).1.buffers.x :=
  congrArg (fun v : Vector ℝ n => norm v.toList) (attempt_scaled s diag delta state)

/-- With a positive lower bound only a step whose length is close to the radius is good enough. -/
theorem settled_of_lower {state : Refinement ℝ m n} (positive : 0 < state.lower)
    (good : (state.attempt tall s diag delta).2 = true) :
    |scaledLength diag (state.attempt tall s diag delta).1.buffers.x - delta| ≤ 0.1 * delta := by
  rw [← attempt_length]
  rcases of_decide_eq_true good with close | ⟨none, -⟩
  · exact close
  · exact absurd (beq_iff_eq.mp none) (ne_of_gt positive)

end Refinement

/-! ### Searches -/

namespace Triangular

variable {s : Triangular ℝ m n} {diag : Vector ℝ n} {delta par : ℝ}

theorem search_par_nonneg (radius : 0 < delta) (nonneg : 0 ≤ par) (positive : ∀ j, 0 < diag.get j)
    (apart : Function.Injective s.pivots.get) (buffers : SearchBuffers ℝ n) :
    0 ≤ (s.search tall diag delta par buffers).par := by
  by_cases short : s.undampedLength tall diag buffers - delta ≤ 0.1 * delta
  · rw [search_of_short short]
  · exact le_of_lt (search_damped radius nonneg positive apart short).1

/-- A search that does not damp has found the undamped step. -/
theorem search_undamped (radius : 0 < delta) (nonneg : 0 ≤ par) (positive : ∀ j, 0 < diag.get j)
    (apart : Function.Injective s.pivots.get) {buffers : SearchBuffers ℝ n}
    (undamped : (s.search tall diag delta par buffers).par = 0) :
    s.GaussNewton tall (s.search tall diag delta par buffers).buffers.x := by
  by_cases short : s.undampedLength tall diag buffers - delta ≤ 0.1 * delta
  · rw [search_of_short short]
    exact undampedStep_gaussNewton apart diag buffers
  · have damped := (search_damped radius nonneg positive apart short).1
    exact absurd undamped (ne_of_gt damped)

/-- Without errors of rounding, whatever the triangle `R`, singular ones included: there is one
undamped step. If it is at most a tenth longer than the radius, a search takes it, with a damping of
zero. If it is longer, the search finds a damping that is positive, and the one solution of the
normal equations with this damping. The length of that step is within a tenth of the radius, unless
ten trials have been made or there is a zero on the diagonal of `R`. -/
theorem search_radius (tall : n ≤ m) (s : Triangular ℝ m n)
    (permutation : Function.Bijective s.pivots.get) {diag : Vector ℝ n}
    (positive : ∀ j, 0 < diag.get j) {delta par : ℝ} (radius : 0 < delta) (nonneg : 0 ≤ par)
    (buffers : SearchBuffers ℝ n) :
    let found := s.search tall diag delta par buffers
    let R := s.r.upper tall
    let P := s.permutation
    ∃ g : Vector ℝ n, (∀ x, s.GaussNewton tall x ↔ x = g) ∧
      (scaledLength diag g ≤ 1.1 * delta → found.par = 0 ∧ found.buffers.x = g) ∧
      (1.1 * delta < scaledLength diag g → 0 < found.par ∧
        (∀ x : Vector ℝ n, (Rᵀ * R + found.par • (Pᵀ * diagonal diag.get ^ 2 * P)) *ᵥ
            (Pᵀ *ᵥ x.get) = Rᵀ *ᵥ s.qtb.get ↔ x = found.buffers.x) ∧
        (|scaledLength diag found.buffers.x - delta| ≤ 0.1 * delta ∨ found.trials = 10 ∨
          ∃ j, R j j = 0)) := by
  intro found R P
  have apart := permutation.injective
  have undamped : s.GaussNewton tall (s.undampedStep tall diag buffers).x :=
    undampedStep_gaussNewton apart diag buffers
  refine ⟨(s.undampedStep tall diag buffers).x, fun x => ⟨fun h => h.unique permutation undamped,
    fun same => same ▸ undamped⟩, fun short => ?_, fun long => ?_⟩
  · have here : found = _ := search_of_short (by
      rw [undampedLength_eq]
      linarith)
    rw [here]
    exact ⟨rfl, rfl⟩
  · rw [← undampedLength_eq] at long
    have leaves : ¬ s.undampedLength tall diag buffers - delta ≤ 0.1 * delta := by linarith
    obtain ⟨k, within, here, trials, last⟩ :=
      @search_ends ℝ _ m n tall s diag delta par buffers leaves
    have here : found = _ := here
    obtain ⟨damped, solves⟩ : 0 < found.par ∧ s.Solves tall diag found.par found.buffers.x :=
      search_damped radius nonneg positive apart leaves
    refine ⟨damped, fun x => ?_, ?_⟩
    · rw [← solves_iff apart]
      exact ⟨fun h => h.unique permutation positive damped solves, fun same => same ▸ solves⟩
    · by_cases regular : ∃ j, R j j = 0
      · exact .inr (.inr regular)
      rcases Nat.lt_or_eq_of_le within with early | tenth
      · refine .inl ?_
        have nonzero (j : Fin n) : s.r.lead tall j j ≠ 0 := fun zero =>
          regular ⟨j, (s.r.upper_diagonal j).trans zero⟩
        have lower := @opened_lower_pos m n tall s diag delta par buffers apart positive nonzero
          radius (by linarith)
        rw [here]
        exact Refinement.settled_of_lower (lower.trans_le (Refinement.pass_lower_le k _))
          (last early)
      · exact .inr (.inl (trials.trans tenth))

/-- The step of the triangle with a column of zeros is `1 / 5` long in the second unknown, and
scaled by three it leaves the region of radius `1 / 2`. -/
theorem search_radius_deficient :
    Function.Bijective deficient.pivots.get ∧ (∀ j, 0 < (#v[1, 3] : Vector ℝ 2).get j) ∧
      (0 : ℝ) < 1 / 2 ∧ (0 : ℝ) ≤ 0 ∧
      0 < (deficient.search (Nat.le_refl 2) #v[1, 3] (1 / 2) 0
        ⟨#v[0, 0], #v[0, 0], #v[0, 0], #v[0, 0]⟩).par := by
  have bijective : Function.Bijective deficient.pivots.get := by
    change Function.Bijective (#v[1, 0] : Vector (Fin 2) 2).get
    decide
  have positive (j : Fin 2) : 0 < (#v[1, 3] : Vector ℝ 2).get j := by
    fin_cases j
    · exact one_pos
    · exact three_pos
  obtain ⟨g, undamped, -, long⟩ := search_radius (Nat.le_refl 2) deficient bijective positive
    one_half_pos le_rfl ⟨#v[0, 0], #v[0, 0], #v[0, 0], #v[0, 0]⟩
  have first : deficient.r.lead (Nat.le_refl 2) 0 0 = 5 := rfl
  have second : deficient.r.lead (Nat.le_refl 2) 1 1 = 0 := rfl
  have step : #v[0, 1 / 5] = g := (undamped _).mp {
    zeros := fun j past => by
      fin_cases j
      · have found : deficient.rank (Nat.le_refl 2) < 2 := lt_of_le_of_lt past two_pos
        have zero : (deficient.r.lead (Nat.le_refl 2) ⟨_, found⟩ ⟨_, found⟩ == 0) = true :=
          firstIndex_spec found
        rw [show (⟨_, found⟩ : Fin 2) = 0 from Fin.ext (Nat.le_zero.mp past), first] at zero
        exact absurd (beq_iff_eq.mp zero) (by norm_num)
      · rfl
    solved := fun i inside => by
      fin_cases i
      · have row := Fin.sum_univ_two fun l : Fin 2 =>
          deficient.r.upper (Nat.le_refl 2) 0 l * (#v[0, 1 / 5] : Vector ℝ 2).get (#v[1, 0].get l)
        refine row.trans ?_
        change (5 : ℝ) * (1 / 5) + 0 * 0 = 1
        norm_num
      · exact absurd second (diagonal_ne_zero inside) }
  refine ⟨bijective, positive, one_half_pos, le_rfl, (long ?_).1⟩
  have length : scaledLength (#v[1, 3] : Vector ℝ 2) #v[0, 1 / 5] = 3 / 5 := by
    have squares : ((1 : ℝ) * 0) ^ 2 + (3 * (1 / 5)) ^ 2 = (3 / 5) ^ 2 := by norm_num
    rw [scaledLength, norm_real, Fin.sum_univ_two]
    exact (congrArg _ squares).trans (Real.sqrt_sq (by norm_num))
  rw [← step, length]
  norm_num

end Triangular

end LeastSquares
