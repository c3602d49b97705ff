import Mathlib
import LeastSquares.Proofs.Redivision
import LeastSquares.Proofs.Exact.Confinement

/-!
# Division by zero

Without errors of rounding no stage of a solve divides by zero, whatever the rank of the Jacobian
is. Most divisors are not tested where they are used: that they are not zero is what other routines
have made sure of before.
-/
namespace LeastSquares

variable {m n : Nat}

theorem Differencing.not_mem_divisors (p : Problem ℝ) (epsfcn : ℝ) (residuals : Vector ℝ m)
    (d : Differencing ℝ m n) : 0 ∉ d.divisors p epsfcn residuals := by
  refine not_mem_tally (fun _ _ => True) True.intro fun j d _ => ⟨?_, True.intro⟩
  rw [columnDivisors, List.mem_ite_nil_left, List.mem_ite_nil_left, List.mem_singleton]
  rintro ⟨-, -, zero⟩
  exact differenceStep_ne_zero (differenceScale_ne_zero epsfcn) _ zero.symm

/-! ### Factorization -/

namespace Factor

/-- A remaining norm at position `j` or later is not compared with a reference of zero, unless it is
zero itself. -/
def Referenced (f : Factor ℝ m n) (j : Nat) : Prop :=
  ∀ k : Fin n, j ≤ k → f.rdiag.get k ≠ 0 → f.reference.get k ≠ 0

theorem prepare_referenced (pivot : Bool) (f : Factor ℝ m n) : (f.prepare pivot).Referenced 0 := by
  intro k _ nonzero
  simp only [prepare, get_overwrite] at nonzero ⊢
  exact nonzero

theorem Referenced.exchange {f : Factor ℝ m n} {col : Fin n} (h : f.Referenced col) (best : Fin n) :
    (f.exchange col best).Referenced col := by
  intro k inside
  simp only [Factor.exchange, get_overwriteAt]
  split
  · exact h col le_rfl
  · exact h k inside

theorem downdate_reference {remaining reference : ℝ} (h : remaining ≠ 0 → reference ≠ 0)
    (j : Fin m) (col : Vector ℝ m) :
    (downdate j col remaining reference).1 ≠ 0 → (downdate j col remaining reference).2 ≠ 0 := by
  unfold downdate
  split
  · exact h
  next nonzero =>
    dsimp only
    split
    · exact id
    · exact fun _ => h fun zero => nonzero (beq_iff_eq.mpr zero)

variable {row : Fin m} {col : Fin n} {f : Factor ℝ m n}

theorem Referenced.eliminate (h : f.Referenced col) :
    (f.eliminate true row col).Referenced (col + 1) := by
  intro k after
  have after : col < k := after
  by_cases zero : (tailNorm (f.packed.get col) row == 0) = true
  · rw [eliminate_of_none zero, get_overwriteAt, if_neg (ne_of_lt after)]
    exact h k (le_of_lt after)
  · rw [eliminate_of_size zero, get_overwriteAt, if_neg (ne_of_lt after), get_map, get_map,
      downdated, get_overwrite, if_pos ⟨rfl, after⟩]
    exact downdate_reference (h k (le_of_lt after)) row _

theorem Referenced.not_mem_eliminateDivisors (h : f.Referenced col) :
    0 ∉ f.eliminateDivisors true row col := by
  refine Factor.not_mem_eliminateDivisors.mpr fun some => ?_
  have positive : 0 < tailNorm (f.packed.get col) row :=
    lt_of_le_of_ne (Real.sqrt_nonneg _) fun zero => some (beq_iff_eq.mpr zero.symm)
  obtain ⟨square, sign⟩ := @signed_length ((f.packed.get col).get row) _ positive
  refine ⟨fun zero => ?_, fun k after => ⟨?_, fun _ => ?_⟩⟩
  · change f.signedLength row col ^ 2 = _ at square
    rw [zero, zero_pow two_ne_zero] at square
    exact absurd square (ne_of_lt (pow_pos positive 2))
  · rw [columnReflector, get_reflector, if_pos rfl]
    -- The length has the sign of the entry it divides, so that nothing is less than the one added.
    change 0 ≤ _ / f.signedLength row col at sign
    positivity
  · rw [downdateDivisors, List.mem_ite_nil_left, List.mem_cons, List.mem_singleton]
    rintro ⟨nonzero, zero⟩
    have remaining : f.rdiag.get k ≠ 0 := fun zero => nonzero (beq_iff_eq.mpr zero)
    rcases zero with zero | zero
    · exact remaining zero.symm
    · exact h k (le_of_lt after) remaining zero.symm

theorem not_mem_divisors (f : Factor ℝ m n) : 0 ∉ f.divisors true := by
  refine not_mem_tally (fun j f => f.Referenced j) (f.prepare_referenced true) ?_
  intro j f now
  have exchanged := @Referenced.exchange m n f (j.castLE (Nat.min_le_right m n)) now
    (pivotFrom (j.castLE (Nat.min_le_right m n)) f.rdiag)
  exact ⟨exchanged.not_mem_eliminateDivisors, exchanged.eliminate⟩

end Factor

theorem not_mem_projectDivisors (packed : Columns ℝ m n) : 0 ∉ projectDivisors packed := by
  simp only [projectDivisors, List.mem_flatMap, List.mem_ite_nil_left, List.mem_singleton,
    not_exists, not_and]
  rintro j - nonzero zero
  exact nonzero (beq_iff_eq.mpr zero.symm)

theorem not_mem_gradientDivisors (pivots : Vector (Fin n) n) (norms : Vector ℝ n) (fnorm : ℝ) :
    0 ∉ gradientDivisors pivots norms fnorm := by
  simp only [gradientDivisors, List.mem_flatMap, List.mem_ite_nil_left, List.mem_cons,
    List.not_mem_nil, or_false, not_and, not_exists, not_or]
  intro some j _ nonzero
  constructor
  · exact fun zero => some (beq_iff_eq.mpr zero.symm)
  · exact fun zero => nonzero (beq_iff_eq.mpr zero.symm)

/-! ### Damped solves -/

theorem Rotation.not_mem_divisors {a b : ℝ} (nonzero : b ≠ 0) : 0 ∉ Rotation.divisors a b := by
  have root (x : ℝ) : (0 : ℝ) ≠ √(0.25 + 0.25 * x * x) :=
    ne_of_lt (Real.sqrt_pos.mpr (by nlinarith [mul_self_nonneg x]))
  unfold divisors
  split
  next small =>
    rw [List.mem_cons, List.mem_singleton, not_or]
    exact ⟨nonzero.symm, root _⟩
  next large =>
    rw [List.mem_cons, List.mem_singleton, not_or]
    refine ⟨fun zero => large ?_, root _⟩
    rw [← zero, abs_real, abs_real, abs_zero]
    exact abs_pos.mpr nonzero

theorem Absorption.not_mem_divisors {tall : n ≤ m} (s : Absorption ℝ m n) :
    0 ∉ s.divisors tall := by
  refine not_mem_tally (fun _ _ => True) True.intro fun k s _ => ⟨?_, True.intro⟩
  rw [rotateDivisors, List.mem_ite_nil_left, not_and]
  exact fun nonzero => Rotation.not_mem_divisors fun zero => nonzero (beq_iff_eq.mpr zero)

namespace Triangular

variable {tall : n ≤ m}

theorem not_mem_dampedDivisors (s : Triangular ℝ m n) (diag x sdiag permuted : Vector ℝ n) :
    0 ∉ s.dampedDivisors tall diag x sdiag permuted := by
  rw [dampedDivisors, List.mem_append, not_or]
  constructor
  · exact not_mem_tally (fun _ _ => True) True.intro
      fun _ _ _ => ⟨Absorption.not_mem_divisors _, True.intro⟩
  · rw [mem_entriesBefore]
    rintro ⟨j, inside, zero⟩
    exact absurd (beq_iff_eq.mpr zero) (ne_true_of_eq_false (eq_false_of_lt_firstIndex inside))

/-! ### Directions -/

/-- A substitution that finds only zeros was made for zeros only. -/
theorem foldl_ne_zero {f : Vector ℝ n → Fin n → Vector ℝ n}
    (before : ∀ v j (k : Fin n), k < j → (f v j).get k = v.get k)
    (kept : ∀ v j, (∀ k < j, v.get k = 0) → (f v j).get j = 0 → f v j = v) {w : Vector ℝ n}
    (some : ∃ j, w.get j ≠ 0) : ∃ j, (Fin.foldl n f w).get j ≠ 0 := by
  by_contra! zero
  -- As long as it has found nothing but zeros, it has not changed anything.
  have unchanged : (∀ k : Fin n, k.val < n → (Fin.foldl n f w).get k = 0) →
      Fin.foldl n f w = w := by
    refine foldl_invariant (fun j (v : Vector ℝ n) =>
      (∀ k : Fin n, k.val < j → v.get k = 0) → v = w) (fun _ => rfl) ?_
    intro j v same zero
    have earlier (k : Fin n) (lt : k < j) : v.get k = 0 := by
      rw [← before v j k lt]
      exact zero k (Nat.lt_succ_of_lt lt)
    exact (kept v j earlier (zero j (Nat.lt_succ_self j))).trans (same earlier)
  obtain ⟨j, nonzero⟩ := some
  rw [← unchanged fun k _ => zero k] at nonzero
  exact nonzero (zero j)

variable {s : Triangular ℝ m n}

theorem forwardSubstitute_ne_zero (diagonal : ∀ j, s.r.lead tall j j ≠ 0) {w : Vector ℝ n}
    (some : ∃ j, w.get j ≠ 0) : ∃ j, (s.forwardSubstitute tall w).get j ≠ 0 := by
  refine foldl_ne_zero (fun v j k lt => ?_) (fun v j earlier zero => ?_) some
  · rw [get_overwriteAt, if_neg (ne_of_gt lt)]
  · have sum : sumWhere (· < j) (fun i => s.r.lead tall i j * v.get i) = 0 := by
      rw [sumWhere_real]
      exact Finset.sum_eq_zero fun i inside => by
        rw [earlier i (Finset.mem_filter.mp inside).2, mul_zero]
    dsimp only at zero ⊢
    rw [sum, sub_zero] at zero ⊢
    rw [get_overwriteAt, if_pos rfl] at zero
    have here : v.get j = 0 := (div_eq_zero_iff.mp zero).resolve_right (diagonal j)
    rw [zero, ← here]
    apply eq_of_get_eq
    intro i
    rw [get_overwriteAt]
    split
    next same => rw [same]
    next => rfl

theorem solveDampedTranspose_ne_zero (r : Columns ℝ m n) {sdiag : Vector ℝ n}
    (nonzero : ∀ j, sdiag.get j ≠ 0) {w : Vector ℝ n} (some : ∃ j, w.get j ≠ 0) :
    ∃ j, (solveDampedTranspose tall r sdiag w).get j ≠ 0 := by
  refine foldl_ne_zero (fun v j k lt => ?_) (fun v j _ zero => ?_) some
  · rw [get_overwriteWhere, if_neg (not_lt_of_gt lt), get_overwriteAt, if_neg (ne_of_gt lt)]
  · rw [get_overwriteWhere, if_neg (lt_irrefl j), get_overwriteAt, if_pos rfl] at zero
    have here : v.get j = 0 := (div_eq_zero_iff.mp zero).resolve_right (nonzero j)
    apply eq_of_get_eq
    intro i
    rw [zero, get_overwriteWhere, get_overwriteAt, mul_zero, sub_zero, ← here]
    split
    · rfl
    · split
      next same => rw [same]
      next => rfl

theorem boundaryNormal_ne_zero {diag : Vector ℝ n} (positive : ∀ j, 0 < diag.get j)
    (apart : Function.Injective s.pivots.get) {scaled : Vector ℝ n}
    (some : norm scaled.toList ≠ 0) (buffer : Vector ℝ n) :
    ∃ j, (s.boundaryNormal diag scaled (norm scaled.toList) buffer).get j ≠ 0 := by
  by_contra! zero
  refine some ((norm_eq_zero_iff scaled).mpr fun l => ?_)
  obtain ⟨j, rfl⟩ := Finite.injective_iff_surjective.mp apart l
  have entry := zero j
  rw [boundaryNormal, get_overwrite] at entry
  have quotient := (mul_eq_zero.mp entry).resolve_left (ne_of_gt (positive _))
  exact (div_eq_zero_iff.mp quotient).resolve_right some

end Triangular

/-! ### The search for the damping -/

section

variable {tall : n ≤ m} {s : Triangular ℝ m n} {diag : Vector ℝ n} {delta par : ℝ}
  (positive : ∀ j, 0 < diag.get j) (apart : Function.Injective s.pivots.get) (radius : 0 < delta)
include positive apart radius

/-- A correction follows a trial, whose step is not zero and whose triangle is regular. -/
theorem Refinement.not_mem_correctDivisors {i : Fin n} (steep : s.gradient tall i ≠ 0)
    {state : Refinement ℝ m n} (h : state.Sound tall s) :
    0 ∉ (state.attempt tall s diag delta).1.correctDivisors tall s diag delta := by
  obtain ⟨-, l, step⟩ := @attempt_found m n tall s diag delta positive apart i steep state h
  have sdiag := @Triangular.damped_sdiag_ne_zero m n tall { s with r := state.r } _ state.buffers.x
    state.buffers.sdiag state.buffers.scaled (scaledDamping_ne_zero positive h.par)
  set t := (state.attempt tall s diag delta).1
  have length : t.length ≠ 0 := by
    intro zero
    have entry := (norm_eq_zero_iff t.buffers.scaled).mp zero l
    have scaled : t.buffers.scaled.get l = diag.get l * t.buffers.x.get l := get_overwrite ..
    rw [scaled] at entry
    exact mul_ne_zero (ne_of_gt (positive l)) step entry
  -- A step that is not zero has a normal to the boundary, which no regular triangle sends to zero.
  have normal := Triangular.boundaryNormal_ne_zero positive apart length t.buffers.direction
  have direction := @Triangular.solveDampedTranspose_ne_zero m n tall t.r _ sdiag _ normal
  simp only [correctDivisors, List.mem_append, List.mem_cons, List.mem_ofFn, List.not_mem_nil,
    or_false, not_or, not_exists]
  refine ⟨⟨length.symm, sdiag⟩, ne_of_lt radius, fun zero => ?_⟩
  obtain ⟨j, nonzero⟩ := direction
  exact nonzero ((norm_eq_zero_iff _).mp zero.symm j)

theorem Refinement.not_mem_divisors {i : Fin n} (steep : s.gradient tall i ≠ 0) (more : Nat)
    {state : Refinement ℝ m n} (h : state.Sound tall s) :
    0 ∉ divisors tall s diag delta more state := by
  induction more generalizing state with
  | zero => exact Triangular.not_mem_dampedDivisors _ _ _ _ _
  | succ more ih =>
    rw [divisors, List.mem_append, not_or]
    refine ⟨Triangular.not_mem_dampedDivisors _ _ _ _ _, ?_⟩
    have correct := not_mem_correctDivisors positive apart radius steep h
    have tried := @attempt_sound m n tall s diag delta state h
    split
    next => exact List.not_mem_nil
    next t poor =>
      rw [poor] at correct tried
      rw [List.mem_append, not_or]
      exact ⟨correct, ih (correct_sound tried)⟩

theorem Triangular.not_mem_bracketDivisors {length : ℝ} (long : 0 < length)
    {buffers : SearchBuffers ℝ n} (scaled : length = norm buffers.scaled.toList) :
    0 ∉ s.bracketDivisors tall diag delta par length buffers := by
  have newton : 0 ∉ s.newtonDivisors tall diag delta length buffers := by
    unfold newtonDivisors
    split
    next => exact List.not_mem_nil
    next full =>
      have diagonal (j : Fin n) : s.r.lead tall j j ≠ 0 := diagonal_ne_zero (by omega)
      have normal := boundaryNormal_ne_zero positive apart (scaled ▸ ne_of_gt long)
        buffers.direction
      rw [← scaled] at normal
      obtain ⟨j, nonzero⟩ := forwardSubstitute_ne_zero diagonal normal
      simp only [List.mem_append, List.mem_cons, List.mem_ofFn, List.not_mem_nil, or_false, not_or,
        not_exists]
      refine ⟨⟨ne_of_lt long, diagonal⟩, ne_of_lt radius, fun zero => nonzero ?_⟩
      rw [newtonNormal, if_neg full] at zero
      exact (norm_eq_zero_iff _).mp zero.symm j
  simp only [bracketDivisors, gradientBoundDivisors, firstDampingDivisors, List.mem_append,
    List.mem_ofFn, List.mem_cons, List.mem_ite_nil_right, List.not_mem_nil, or_false, not_or,
    not_exists, not_and]
  refine ⟨⟨⟨newton, fun j => ne_of_gt (positive _)⟩, ne_of_lt radius, fun _ => ?_⟩,
    fun _ => ne_of_lt long⟩
  exact ne_of_lt (lt_min radius (by norm_num))

theorem Triangular.not_mem_searchDivisors (nonneg : 0 ≤ par) {i : Fin n}
    (steep : s.gradient tall i ≠ 0) (buffers : SearchBuffers ℝ n) :
    0 ∉ s.searchDivisors tall diag delta par buffers := by
  unfold searchDivisors
  dsimp only
  rw [List.mem_append, not_or]
  constructor
  · rw [mem_entriesBefore]
    rintro ⟨j, inside, zero⟩
    exact diagonal_ne_zero inside zero
  · split
    next => exact List.not_mem_nil
    next leaves =>
      have long := le_of_leaves radius leaves
      rw [List.mem_append, not_or]
      constructor
      · exact not_mem_bracketDivisors positive apart radius (lt_of_lt_of_le radius long) rfl
      · exact Refinement.not_mem_divisors positive apart radius steep _
          (bracket_sound radius nonneg long _)

end

/-! ### The region -/

theorem Reduction.not_mem_divisors {current : ℝ} (positive : 0 < current) (trial length par : ℝ)
    (image : Vector ℝ n) : 0 ∉ Reduction.divisors current trial length par image := by
  simp only [Reduction.divisors, List.mem_append, List.mem_ite_nil_right, List.mem_cons,
    List.not_mem_nil, or_false, not_or, not_and]
  refine ⟨⟨fun _ => ne_of_lt positive, ne_of_lt positive, by norm_num⟩, fun nonzero zero => ?_⟩
  exact bne_iff_ne.mp nonzero zero.symm

theorem Region.not_mem_divisors (g : Region ℝ) {r : Reduction ℝ} (slope : r.slope ≤ 0)
    (current trial : ℝ) : 0 ∉ g.divisors r current trial := by
  unfold divisors
  split
  · obtain ⟨least, -⟩ := @shrinkage_bounds r current trial slope
    simp only [List.mem_append, List.mem_ite_nil_left, List.mem_cons, List.not_mem_nil, or_false,
      not_or, not_and]
    refine ⟨fun growth => ?_, by norm_num, ?_⟩
    · -- The parabola is only asked for a residual that has grown.
      exact ne_of_gt (by linarith [not_le.mp growth])
    · exact ne_of_lt (lt_of_lt_of_le (by norm_num) least)
  · split
    · rw [List.mem_singleton]
      norm_num
    · exact List.not_mem_nil

/-! ### Stages -/

namespace State

variable {p : Problem ℝ} {tall : p.parameterCount ≤ p.residualCount}

theorem not_mem_linearizeDivisors (c : Config ℝ) (s : State p) : 0 ∉ s.linearizeDivisors c := by
  rw [linearizeDivisors, List.mem_append, not_or]
  refine ⟨Differencing.not_mem_divisors _ _ _ _, ?_⟩
  split
  · exact List.not_mem_nil
  · rw [List.mem_append, List.mem_append, not_or, not_or]
    exact ⟨⟨Factor.not_mem_divisors _, not_mem_projectDivisors _⟩, not_mem_gradientDivisors _ _ _⟩

theorem Armed.not_mem_attemptDivisors {s : State p} (h : s.Armed tall) :
    0 ∉ s.attemptDivisors tall := by
  obtain ⟨i, steep⟩ := h.steep
  rw [attemptDivisors, List.mem_append, not_or]
  constructor
  · exact @Triangular.not_mem_searchDivisors _ _ tall s.system s.diag s.region.delta s.region.par
      h.diag h.apart h.delta h.par i steep _
  · -- A trial is judged by the norm from before it, which has passed the gradient test.
    have fnorm : (s.proposed tall).evaluateTrial.1.fnorm = s.fnorm := (proposed_same tall s).fnorm
    split
    next => exact List.not_mem_nil
    next t evaluated =>
      rw [evaluated] at fnorm
      unfold judgeDivisors
      dsimp only
      rw [List.mem_append, not_or]
      refine ⟨Reduction.not_mem_divisors (fnorm ▸ h.fnorm) _ _ _ _, ?_⟩
      exact Region.not_mem_divisors _ Reduction.slope_nonpos _ _

end State

theorem Stage.Prepared.not_mem_divisors {p : Problem ℝ}
    {tall : p.parameterCount ≤ p.residualCount} {c : Config ℝ} {stage : Stage p}
    (h : stage.Prepared tall c) : 0 ∉ stage.divisors tall c := by
  cases stage with
  | linearize s => exact s.not_mem_linearizeDivisors c
  | attempt s => exact State.Armed.not_mem_attemptDivisors h
  | stopped info s => exact List.not_mem_nil

/-- Without errors of rounding, nothing is ever divided by zero in a solve, and so the solve does
not depend on what a division by zero would give. -/
theorem solve_divides {p : Problem ℝ} {c : Config ℝ} {x residuals diag : Array ℝ}
    {w : Workspace ℝ} (h : Accepted p c x residuals diag w) :
    (∀ k, 0 ∉ (h.first.run h.tall c k).divisors h.tall c) ∧
    ∀ quotient : ℝ → ℝ → ℝ, Scalar.Divides quotient →
      @solve ℝ (.redivide quotient) p c x residuals diag w = solve p c x residuals diag w := by
  have clear (k : Nat) : 0 ∉ (h.first.run h.tall c k).divisors h.tall c :=
    (Stage.run_prepared h.gtol_nonneg h.factor_pos k h.first_prepared).not_mem_divisors
  exact ⟨clear, fun quotient divides => solve_redivide divides h clear⟩

/-- The residual is always one, so that the Jacobian is zero. -/
theorem solve_divides_constant :
    let constant := Problem.scalar fun _ _ => 1
    let h := Problem.scalar_accepted (fun _ _ => 1) 1
    let quotient (x y : ℝ) := if y = 0 then 1 else x / y
    h.first.divisors h.tall .default ≠ [] ∧ 0 ∉ h.first.divisors h.tall .default ∧
      @solve ℝ (.redivide quotient) constant .default #[1] #[0] #[1] (.new 1 1) =
        solve constant .default #[1] #[0] #[1] (.new 1 1) := by
  intro constant h quotient
  obtain ⟨clear, same⟩ := solve_divides h
  refine ⟨?_, clear 0, same quotient fun x y nonzero => if_neg nonzero⟩
  obtain ⟨s, first, -⟩ := Problem.scalar_first h
  rw [first]
  refine List.append_ne_nil_of_left_ne_nil ?_ _
  exact List.cons_ne_nil (differenceStep (differenceScale _) (s.x.get (0 : Fin 1))) []

end LeastSquares
