import Mathlib
import LeastSquares.Proofs.Exact.DampedSystem
import LeastSquares.Proofs.Exact.Pivoting
import LeastSquares.Proofs.Trials

/-!
# Searches find a step

As long as the gradient is not zero, neither the undamped step nor any damped one is, and the
damping found is not negative. A triangle that does not have full rank has to reveal it: its
undamped step solves the leading block only.
-/
namespace LeastSquares

variable {m n : Nat} {tall : n ≤ m}

namespace Triangular

/-! ### The gradient -/

theorem gradient_congr {s s' : Triangular ℝ m n} (same : s.r.SameUpper tall s'.r)
    (qtb : s'.qtb = s.qtb) (i : Fin n) : s'.gradient tall i = s.gradient tall i := by
  refine Finset.sum_congr rfl fun l upper => ?_
  rw [same.lead_eq (Finset.mem_filter.mp upper).2, qtb]

/-! ### The undamped step -/

theorem diagonal_ne_zero {s : Triangular ℝ m n} {k : Fin n} (inside : k < s.rank tall) :
    s.r.lead tall k k ≠ 0 := by
  have nonzero := eq_false_of_lt_firstIndex inside
  exact beq_eq_false_iff_ne.mp nonzero

/-- Before the unknown `k - 1` is found: those from `k` on have been found, and what they take of
the right-hand sides of the others has been subtracted. -/
structure Reached (tall : n ≤ m) (s : Triangular ℝ m n) (k : Nat) (w : Vector ℝ n) : Prop where
  zeros : ∀ j : Fin n, s.rank tall ≤ j → w.get j = 0
  ahead : ∀ i : Fin n, i < s.rank tall → i.val < k →
    w.get i + ∑ j : Fin n with k ≤ j.val, s.r.lead tall i j * w.get j = s.qtb.get i
  found : ∀ i : Fin n, i < s.rank tall → k ≤ i.val →
    ∑ j with i.val ≤ j.val, s.r.lead tall i j * w.get j = s.qtb.get i

theorem Reached.skip {s : Triangular ℝ m n} {k : Fin n} {w : Vector ℝ n}
    (h : s.Reached tall (k + 1) w) (outside : ¬ k.val < s.rank tall) : s.Reached tall k w where
  zeros := h.zeros
  ahead i below before := by
    have now := h.ahead i below (by omega)
    rw [sum_from, h.zeros k (not_lt.mp outside), mul_zero, zero_add]
    exact now
  found i below after := absurd below (by omega)

/-- Finding unknown `k`. -/
theorem Reached.find {s : Triangular ℝ m n} {k : Fin n} {w : Vector ℝ n}
    (h : s.Reached tall (k + 1) w) (inside : k.val < s.rank tall) :
    s.Reached tall k (overwriteWhere (overwriteAt w k (w.get k / s.r.lead tall k k)) (· < k)
      fun i => w.get i - s.r.lead tall i k * (w.get k / s.r.lead tall k k)) := by
  set t := w.get k / s.r.lead tall k k
  have taken : s.r.lead tall k k * t = w.get k := mul_div_cancel₀ _ (diagonal_ne_zero inside)
  set w' := overwriteWhere (overwriteAt w k t) (· < k)
    fun i => w.get i - s.r.lead tall i k * t with w'_eq
  have before {i : Fin n} (lt : i < k) : w'.get i = w.get i - s.r.lead tall i k * t := by
    rw [w'_eq, get_overwriteWhere, if_pos lt]
  have here : w'.get k = t := by
    rw [w'_eq, get_overwriteWhere, if_neg (lt_irrefl k), get_overwriteAt, if_pos rfl]
  have after {i : Fin n} (lt : k < i) : w'.get i = w.get i := by
    rw [w'_eq, get_overwriteWhere, if_neg (not_lt_of_gt lt), get_overwriteAt, if_neg (ne_of_lt lt)]
  have later (i : Fin n) {a : Nat} (past : k.val < a) :
      ∑ j with a ≤ j.val, s.r.lead tall i j * w'.get j =
        ∑ j with a ≤ j.val, s.r.lead tall i j * w.get j := by
    refine Finset.sum_congr rfl fun j member => ?_
    rw [after (Fin.lt_def.mpr (lt_of_lt_of_le past (Finset.mem_filter.mp member).2))]
  exact {
    zeros := fun j past => by
      rw [after (Fin.lt_def.mpr (lt_of_lt_of_le inside past))]
      exact h.zeros j past
    ahead := fun i below lt => by
      have now := h.ahead i below (by omega)
      rw [sum_from, later i (Nat.lt_succ_self k), here, before lt]
      linarith
    found := fun i below le => by
      rcases eq_or_lt_of_le le with same | past
      · obtain rfl : k = i := Fin.ext same
        have now := h.ahead k below (by omega)
        rw [sum_from, later k (Nat.lt_succ_self k), here, taken]
        exact now
      · rw [later i past]
        exact h.found i below past }

/-- The undamped step solves the leading block of full rank and is zero from there on. -/
theorem undamped_reached (s : Triangular ℝ m n) (buffer : Vector ℝ n) :
    s.Reached tall 0 (s.undamped tall buffer) := by
  refine foldr_invariant (fun k w => s.Reached tall k w) ?_ ?_
  · exact {
      zeros := fun j past => by rw [get_overwrite, if_neg (not_lt.mpr past)]
      ahead := fun i inside _ => by
        have none : (Finset.univ.filter fun j : Fin n => n ≤ j.val) = ∅ :=
          Finset.filter_false_of_mem fun j _ => by omega
        rw [none, Finset.sum_empty, get_overwrite, if_pos inside, add_zero]
      found := fun i _ none => absurd none (by omega) }
  · intro k w now
    split
    next inside => exact now.find inside
    next outside => exact now.skip outside

/-- The undamped step can only be zero if the gradient is. -/
theorem undamped_ne_zero {s : Triangular ℝ m n} (revealing : s.r.RankRevealing tall)
    (buffer : Vector ℝ n) {i : Fin n} (steep : s.gradient tall i ≠ 0) :
    ∃ j, (s.undamped tall buffer).get j ≠ 0 := by
  by_contra! zero
  apply steep
  refine Finset.sum_eq_zero fun l upper => ?_
  have upper : l ≤ i := (Finset.mem_filter.mp upper).2
  by_cases inside : l.val < s.rank tall
  · rw [← (s.undamped_reached buffer).found l inside (Nat.zero_le _),
      Finset.sum_eq_zero fun j _ => by rw [zero, mul_zero], mul_zero]
  · -- Nothing is left of `R` from the first zero on.
    have bound : s.rank tall < n := by omega
    have first : s.r.lead tall ⟨s.rank tall, bound⟩ ⟨s.rank tall, bound⟩ = 0 :=
      beq_iff_eq.mp (firstIndex_spec bound)
    rw [revealing _ l i first (by simpa [Fin.le_def] using inside) upper, zero_mul]

end Triangular

/-! ### Trials -/

namespace Refinement

/-- The damping to try and the lower bound are not negative, and the triangle is still that of the
system. -/
structure Sound (tall : n ≤ m) (s : Triangular ℝ m n) (state : Refinement ℝ m n) : Prop where
  par : 0 ≤ state.par
  lower : 0 ≤ state.lower
  same : s.r.SameUpper tall state.r

/-- The last trial was made with a positive damping and led to a step. -/
structure Found (state : Refinement ℝ m n) : Prop where
  par : 0 < state.par
  step : ∃ j, state.buffers.x.get j ≠ 0

theorem damping_pos {state : Refinement ℝ m n} (nonneg : 0 ≤ state.par) : 0 < state.damping := by
  unfold damping
  split
  · exact lt_of_lt_of_le tiny_pos (le_max_left _ _)
  next nonzero => exact lt_of_le_of_ne nonneg fun zero => nonzero (beq_iff_eq.mpr zero.symm)

variable {s : Triangular ℝ m n} {diag : Vector ℝ n} {delta : ℝ}

theorem attempt_sound {state : Refinement ℝ m n} (h : state.Sound tall s) :
    (state.attempt tall s diag delta).1.Sound tall s :=
  ⟨le_of_lt (damping_pos h.par), h.lower, h.same.trans (attempt_sameUpper ..)⟩

theorem correct_sound {state : Refinement ℝ m n} (h : state.Sound tall s) :
    (state.correct tall s diag delta).Sound tall s := by
  have lower : 0 ≤ (state.correct tall s diag delta).lower := by
    simp only [correct, larger_real]
    split
    · exact le_max_of_le_left h.lower
    · exact h.lower
  exact ⟨lower.trans (le_max_left _ _), lower, h.same⟩

theorem pass_sound (k : Nat) {state : Refinement ℝ m n} (h : state.Sound tall s) :
    (state.pass tall s diag delta k).Sound tall s := by
  induction k with
  | zero => exact h
  | succ k ih =>
    rw [pass_succ]
    exact correct_sound (attempt_sound ih)

theorem scaledDamping_ne_zero (positive : ∀ j, 0 < diag.get j) {state : Refinement ℝ m n}
    (nonneg : 0 ≤ state.par) (j : Fin n) :
    (overwrite state.buffers.direction fun j => sqrt state.damping * diag.get j).get j ≠ 0 := by
  rw [get_overwrite]
  exact mul_ne_zero (ne_of_gt (Real.sqrt_pos.mpr (damping_pos nonneg))) (ne_of_gt (positive j))

theorem attempt_found (positive : ∀ j, 0 < diag.get j) (apart : Function.Injective s.pivots.get)
    {i : Fin n} (steep : s.gradient tall i ≠ 0) {state : Refinement ℝ m n}
    (h : state.Sound tall s) : (state.attempt tall s diag delta).1.Found := by
  refine ⟨damping_pos h.par, ?_⟩
  refine @Triangular.damped_ne_zero m n tall { s with r := state.r } _ _ _ _ apart
    (scaledDamping_ne_zero positive h.par) i ?_
  rwa [@Triangular.gradient_congr m n tall s { s with r := state.r } h.same rfl]

end Refinement

namespace Triangular

variable {s : Triangular ℝ m n} {diag : Vector ℝ n} {delta par : ℝ}

/-- The bounds of a bracket come from the slope of a Newton step at zero and from the length of the
gradient. -/
theorem bracket_bounds (s : Triangular ℝ m n) (diag : Vector ℝ n) (delta par length : ℝ)
    (buffers : SearchBuffers ℝ n) :
    let b := s.bracket tall diag delta par length buffers
    ∃ slope steepness : ℝ, 0 ≤ steepness ∧
      b.lower = (if s.rank tall < n then 0 else (length - delta) / delta / slope / slope) ∧
      b.upper = (if steepness / delta == 0 then Numeric.tiny / min delta 0.1
        else steepness / delta) ∧
      b.par = if min (max par b.lower) b.upper == 0 then steepness / length
        else min (max par b.lower) b.upper :=
  ⟨_, _, norm_nonneg _, rfl, rfl, rfl⟩

/-- The first damping that is tried is not negative, nor is its lower bound. -/
theorem bracket_sound (radius : 0 < delta) (nonneg : 0 ≤ par) {length : ℝ} (long : delta ≤ length)
    (buffers : SearchBuffers ℝ n) :
    (s.bracket tall diag delta par length buffers).Sound tall s := by
  obtain ⟨slope, steepness, gradient, lower_eq, upper_eq, par_eq⟩ :=
    @bracket_bounds m n tall s diag delta par length buffers
  have lower : 0 ≤ (s.bracket tall diag delta par length buffers).lower := by
    rw [lower_eq]
    split
    · exact le_rfl
    · rw [div_div _ slope, ← pow_two]
      exact div_nonneg (div_nonneg (sub_nonneg.mpr long) (le_of_lt radius)) (sq_nonneg _)
  have upper : 0 ≤ (s.bracket tall diag delta par length buffers).upper := by
    rw [upper_eq]
    split
    · exact div_nonneg (le_of_lt tiny_pos) (le_min (le_of_lt radius) (by norm_num))
    · exact div_nonneg gradient (le_of_lt radius)
  refine ⟨?_, lower, .refl tall s.r⟩
  rw [par_eq]
  split
  · exact div_nonneg gradient (le_of_lt (lt_of_lt_of_le radius long))
  · exact le_min (le_max_of_le_left nonneg) upper

/-- An undamped step that is not taken leaves the region. -/
theorem le_of_leaves {length : ℝ} (radius : 0 < delta)
    (leaves : ¬ length - delta ≤ 0.1 * delta) : delta ≤ length := by
  have margin : 0 < 0.1 * delta := mul_pos (by norm_num) radius
  linarith [not_le.mp leaves]

/-- A search that makes trials begins them with a damping and a lower bound that are not
negative. -/
theorem opened_sound (radius : 0 < delta) (nonneg : 0 ≤ par) {buffers : SearchBuffers ℝ n}
    (leaves : ¬ s.undampedLength tall diag buffers - delta ≤ 0.1 * delta) :
    (s.opened tall diag buffers delta par).Sound tall s :=
  bracket_sound radius nonneg (le_of_leaves radius leaves) _

/-- What it finds is left by a trial in such a state. -/
theorem search_last (radius : 0 < delta) (nonneg : 0 ≤ par) {buffers : SearchBuffers ℝ n}
    (leaves : ¬ s.undampedLength tall diag buffers - delta ≤ 0.1 * delta) :
    ∃ last : Refinement ℝ m n, last.Sound tall s ∧
      s.search tall diag delta par buffers = (last.attempt tall s diag delta).1.found := by
  obtain ⟨k, -, ends, -⟩ := @search_ends ℝ _ m n tall s diag delta par buffers leaves
  exact ⟨_, Refinement.pass_sound k (opened_sound radius nonneg leaves), ends⟩

/-- A search finds a damping that is not negative and a step that is not zero. -/
theorem search_found (radius : 0 < delta) (nonneg : 0 ≤ par) (positive : ∀ j, 0 < diag.get j)
    (apart : Function.Injective s.pivots.get) (revealing : s.r.RankRevealing tall) {i : Fin n}
    (steep : s.gradient tall i ≠ 0) (buffers : SearchBuffers ℝ n) :
    0 ≤ (s.search tall diag delta par buffers).par ∧
      ∃ j, (s.search tall diag delta par buffers).buffers.x.get j ≠ 0 := by
  by_cases short : s.undampedLength tall diag buffers - delta ≤ 0.1 * delta
  · obtain ⟨j, nonzero⟩ := undamped_ne_zero revealing buffers.direction steep
    rw [search_of_short short]
    refine ⟨le_rfl, s.pivots.get j, ?_⟩
    dsimp only [undampedStep]
    rw [get_scatter apart]
    exact nonzero
  · obtain ⟨last, sound, ends⟩ := @search_last m n tall s diag delta par radius nonneg buffers short
    have found := @Refinement.attempt_found m n tall s diag delta positive apart i steep last sound
    rw [ends]
    exact ⟨le_of_lt found.par, found.step⟩

end Triangular

end LeastSquares
