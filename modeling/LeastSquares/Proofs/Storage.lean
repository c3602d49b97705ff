import Mathlib.Algebra.GroupWithZero.Nat
import Mathlib.Data.List.Basic
import LeastSquares.Proofs.Outcome
import LeastSquares.Proofs.Pools

/-!
# Storage under any sequence of operations

Whatever its owner does to batch storage, its pools keep their lengths, an operation on one slot is
seen in that slot only, and one that is refused is not seen at all. A solve visits every slot, so
that either all slots have an outcome or none has.
-/
namespace LeastSquares

variable {α : Type}

namespace Batch

/-! ### Slots and pools -/

/-- Two pools are the same if all their stretches are. -/
theorem eq_of_stretch_eq {pool pool' : Array α} {stride count : Nat}
    (size : pool.size = count * stride) (size' : pool'.size = count * stride)
    (same : ∀ i < count, stretch pool' stride i = stretch pool stride i) : pool' = pool := by
  apply Array.ext (size'.trans size.symm)
  intro k bound' bound
  have inside : k / stride < count := by
    rw [size, Nat.mul_comm] at bound
    exact Nat.div_lt_of_lt_mul bound
  -- Entry `k` is entry `k % stride` of stretch `k / stride`.
  have place : k / stride * stride + k % stride = k := Nat.div_add_mod' k stride
  have width : k % stride < stride :=
    Nat.mod_lt k (Nat.pos_of_ne_zero fun zero => by simp [size, zero] at bound)
  have room : (k / stride + 1) * stride ≤ count * stride := Nat.mul_le_mul_right stride inside
  have entry := congrArg (·[k % stride]?) (same (k / stride) inside)
  rw [Nat.succ_mul] at room
  simp only [stretch, Array.getElem?_extract, size, size', Nat.succ_mul, Nat.min_eq_left room,
    Nat.add_sub_cancel_left, if_pos width, place, Array.getElem?_eq_getElem bound,
    Array.getElem?_eq_getElem bound', Option.some.injEq] at entry
  exact entry

/-- Storage holds what its slots hold, and nothing else. -/
theorem eq_of_slot?_eq {b b' : Batch α} (rows : b'.residualCount = b.residualCount)
    (cols : b'.parameterCount = b.parameterCount) (size : b'.size = b.size)
    (same : ∀ i, b'.slot? i = b.slot? i) : b' = b := by
  have outcomes : b'.outcomes = b.outcomes := by
    apply Array.ext size
    intro i inside' inside
    have slot := same i
    simp only [Pools.slot?, Array.getElem?_eq_getElem inside, Array.getElem?_eq_getElem inside',
      Option.map_some, Option.some.injEq, Slot.mk.injEq] at slot
    exact slot.2.2.2
  -- The pools are compared once the strides are known to be the same.
  obtain ⟨⟨m, n, params, residuals, diag, os⟩, size_params, size_residuals, size_diag⟩ := b
  obtain ⟨⟨m', n', params', residuals', diag', os'⟩, size_params', size_residuals',
    size_diag'⟩ := b'
  obtain rfl : m' = m := rows
  obtain rfl : n' = n := cols
  obtain rfl : os' = os := outcomes
  have stretches (i : Nat) (inside : i < os'.size) :
      stretch params' n' i = stretch params n' i ∧
        stretch residuals' m' i = stretch residuals m' i ∧
          stretch diag' n' i = stretch diag n' i := by
    have slot := same i
    simp only [Pools.slot?, Array.getElem?_eq_getElem inside, Option.map_some, Option.some.injEq,
      Slot.mk.injEq] at slot
    exact ⟨slot.1, slot.2.1, slot.2.2.1⟩
  obtain rfl := eq_of_stretch_eq size_params size_params' fun i inside => (stretches i inside).1
  obtain rfl := eq_of_stretch_eq size_residuals size_residuals' fun i inside =>
    (stretches i inside).2.1
  obtain rfl := eq_of_stretch_eq size_diag size_diag' fun i inside => (stretches i inside).2.2
  rfl

/-! ### One slot at a time -/

/-- The storage `after` is `b` but for a change made in slot `i`. -/
structure Alters (b after : Batch α) (i : Nat) (change : Slot α → Slot α) : Prop where
  rows : after.residualCount = b.residualCount
  cols : after.parameterCount = b.parameterCount
  size : after.size = b.size
  here : after.slot? i = (b.slot? i).map change
  others (j : Nat) : i ≠ j → after.slot? j = b.slot? j

/-- A change made in one slot leaves room for no other. -/
theorem Alters.unique {b after after' : Batch α} {i : Nat} {change : Slot α → Slot α}
    (h : b.Alters after i change) (h' : b.Alters after' i change) : after' = after := by
  refine eq_of_slot?_eq (h'.rows.trans h.rows.symm) (h'.cols.trans h.cols.symm)
    (h'.size.trans h.size.symm) fun j => ?_
  by_cases here : i = j
  · rw [← here, h.here, h'.here]
  · rw [h.others j here, h'.others j here]

variable {b : Batch α} {i : Nat} {values : Array α}

/-- What is written into a slot is written there and nowhere else, or refused because there is no
such slot or because the values are too few or too many. -/
theorem checked_cases {written : Batch α} {change : Slot α → Slot α}
    (effect : i < b.size → values.size = b.parameterCount →
      written.outcomes = b.outcomes ∧ b.Alters written i change) :
    (i < b.size ∧ values.size = b.parameterCount) ∧
      (∃ after, (do b.checkSlot i values.size; return written) = .ok after ∧
        after.outcomes = b.outcomes ∧ b.Alters after i change) ∨
    ¬ (i < b.size ∧ values.size = b.parameterCount) ∧
      ∃ e, (do b.checkSlot i values.size; return written) = .error e := by
  cases checked : b.checkSlot i values.size with
  | error e =>
    refine .inr ⟨fun fits => ?_, e, rfl⟩
    cases checked.symm.trans (Pools.checkSlot_eq_ok_iff.mpr fits)
  | ok =>
    obtain ⟨inside, fits⟩ := Pools.checkSlot_eq_ok_iff.mp checked
    exact .inl ⟨⟨inside, fits⟩, written, rfl, effect inside fits⟩

theorem setInitial_cases (b : Batch α) (i : Nat) (values : Array α) :
    (i < b.size ∧ values.size = b.parameterCount) ∧
      (∃ after, b.setInitial i values = .ok after ∧ after.outcomes = b.outcomes ∧
        b.Alters after i fun slot => { slot with params := values }) ∨
    ¬ (i < b.size ∧ values.size = b.parameterCount) ∧ ∃ e, b.setInitial i values = .error e := by
  refine checked_cases fun inside fits => ⟨rfl, rfl, rfl, rfl, ?_, fun j other => ?_⟩
  · simp only [Pools.slot?, stretch_writeStretch_self (b.room inside).1 fits, Option.map_map]
    rfl
  · simp only [Pools.slot?, stretch_writeStretch_of_ne other (Nat.le_of_eq fits)]

theorem setDiag_cases (b : Batch α) (i : Nat) (values : Array α) :
    (i < b.size ∧ values.size = b.parameterCount) ∧
      (∃ after, b.setDiag i values = .ok after ∧ after.outcomes = b.outcomes ∧
        b.Alters after i fun slot => { slot with diag := values }) ∨
    ¬ (i < b.size ∧ values.size = b.parameterCount) ∧ ∃ e, b.setDiag i values = .error e := by
  refine checked_cases fun inside fits => ⟨rfl, rfl, rfl, rfl, ?_, fun j other => ?_⟩
  · simp only [Pools.slot?, stretch_writeStretch_self (b.room inside).2.2 fits, Option.map_map]
    rfl
  · simp only [Pools.slot?, stretch_writeStretch_of_ne other (Nat.le_of_eq fits)]

/-! ### Outcomes -/

/-- Either no slot has an outcome or every slot has one. -/
def Uniform (b : Batch α) : Prop :=
  (∀ outcome ∈ b.outcomes, outcome = none) ∨ ∀ outcome ∈ b.outcomes, outcome.isSome

theorem outcome_mem {slot : Slot α} (found : b.slot? i = some slot) :
    slot.outcome ∈ b.outcomes := by
  obtain ⟨outcome, stored, rfl⟩ := Option.map_eq_some_iff.mp found
  exact Array.mem_of_getElem? stored

theorem result?_eq {slot : Slot α} (found : b.slot? i = some slot) :
    b.result? i = slot.outcome.map fun outcome =>
      ⟨slot.params, slot.residuals, slot.diag, outcome, none⟩ := by
  rw [result?, found]
  rfl

theorem results_of_unsolved (unsolved : ∀ outcome ∈ b.outcomes, outcome = none) :
    b.results = [] := by
  rw [results, List.filterMap_eq_nil_iff]
  intro i inside
  obtain ⟨slot, found⟩ := b.exists_slot? (List.mem_range.mp inside)
  rw [result?_eq found, unsolved _ (outcome_mem found), Option.map_none]

/-- All slots of solved storage are among its results, each in its place. -/
theorem results_of_solved (solved : ∀ outcome ∈ b.outcomes, outcome.isSome) :
    b.results.map some = (List.range b.size).map b.result? := by
  rw [results, List.map_filterMap, List.filterMap_eq_map_iff_forall_eq_some]
  intro i inside
  obtain ⟨slot, found⟩ := b.exists_slot? (List.mem_range.mp inside)
  obtain ⟨outcome, stored⟩ := Option.isSome_iff_exists.mp (solved _ (outcome_mem found))
  rw [result?_eq found, stored]
  rfl

theorem outcome_result? (b : Batch α) (i : Nat) :
    (b.result? i).map Fit.outcome = b.outcomes[i]?.join := by
  unfold result? Pools.slot?
  cases b.outcomes[i]? with
  | none => rfl
  | some outcome => cases outcome <;> rfl

/-- The outcomes there are belong to the results, in the order of the slots. -/
theorem outcomes_results (b : Batch α) :
    b.outcomes.toList.filterMap id = b.results.map Fit.outcome := by
  have listed : b.outcomes.toList = (List.range b.size).map fun i => b.outcomes[i]?.join := by
    apply List.ext_getElem
    · simp [Pools.size]
    · intro i inside _
      simp [Array.getElem?_eq_getElem (show i < b.outcomes.size from inside)]
  rw [listed, results, List.filterMap_map, List.map_filterMap]
  exact List.filterMap_congr fun i _ => (b.outcome_result? i).symm

/-- Storage for `count` problems of `m` residuals in `n` parameters, of which either all have been
solved or none. -/
structure Sound (count m n : Nat) (b : Batch α) : Prop where
  rows : b.residualCount = m
  cols : b.parameterCount = n
  size : b.size = count
  uniform : b.Uniform

theorem Sound.of_alters {count m n : Nat} {after : Batch α} {change : Slot α → Slot α}
    (h : b.Sound count m n) (outcomes : after.outcomes = b.outcomes)
    (alters : b.Alters after i change) : after.Sound count m n where
  rows := alters.rows.trans h.rows
  cols := alters.cols.trans h.cols
  size := alters.size.trans h.size
  uniform := by
    rw [Uniform, outcomes]
    exact h.uniform

/-! ### Sums -/

theorem Summary.add_spec (s : Summary) (o : Outcome α) :
    (s.add o).converged + (s.add o).stopped + (s.add o).failed =
        s.converged + s.stopped + s.failed + 1 ∧
      (s.add o).totalNfev = s.totalNfev + o.nfev := by
  unfold add
  split
  · exact ⟨by dsimp only; omega, rfl⟩
  · split
    · exact ⟨by dsimp only; omega, rfl⟩
    · exact ⟨by dsimp only; omega, rfl⟩

theorem Summary.foldl_add_spec (outcomes : List (Outcome α)) (s : Summary) :
    (outcomes.foldl add s).converged + (outcomes.foldl add s).stopped +
          (outcomes.foldl add s).failed =
        s.converged + s.stopped + s.failed + outcomes.length ∧
      (outcomes.foldl add s).totalNfev = s.totalNfev + (outcomes.map Outcome.nfev).sum := by
  induction outcomes generalizing s with
  | nil => exact ⟨rfl, rfl⟩
  | cons o rest ih =>
    obtain ⟨counts, total⟩ := ih (s.add o)
    obtain ⟨count, spent⟩ := s.add_spec o
    rw [List.foldl_cons, List.length_cons, List.map_cons, List.sum_cons]
    exact ⟨by omega, by omega⟩

/-- Every result is counted once in a summary, and so are its evaluations. -/
theorem summary_spec (b : Batch α) :
    b.summary.converged + b.summary.stopped + b.summary.failed = b.results.length ∧
      b.summary.totalNfev = (b.results.map fun fit => fit.outcome.nfev).sum := by
  obtain ⟨counts, total⟩ := Summary.foldl_add_spec (b.results.map Fit.outcome) ⟨0, 0, 0, 0⟩
  rw [Pools.summary, outcomes_results]
  refine ⟨by simpa using counts, ?_⟩
  rw [total, List.map_map]
  exact Nat.zero_add _

/-! ### Solving -/

variable [Scalar α]

theorem solveBy_shape (c : Config α) (problems : Array (Problem α)) (schedule : Schedule)
    (b : Batch α) :
    (b.solveBy c problems schedule).residualCount = b.residualCount ∧
      (b.solveBy c problems schedule).parameterCount = b.parameterCount ∧
      (b.solveBy c problems schedule).size = b.size := by
  apply BatchRun.follow_invariant (P := fun r => r.batch.residualCount = b.residualCount ∧
    r.batch.parameterCount = b.parameterCount ∧ r.batch.size = b.size) _ ⟨rfl, rfl, rfl⟩
  rintro entry - p r ⟨rows, cols, count⟩
  exact ⟨rows, cols, Array.size_setIfInBounds.trans count⟩

/-- A solve that visits every slot leaves an outcome in each. -/
theorem solveBy_solved {c : Config α} {problems : Array (Problem α)} {schedule : Schedule}
    (complete : problems.size = b.size)
    (visits : (schedule.map Prod.snd).Perm (List.range b.size)) :
    ∀ outcome ∈ (b.solveBy c problems schedule).outcomes, outcome.isSome := by
  intro outcome member
  obtain ⟨i, inside, rfl⟩ := Array.mem_iff_getElem.mp member
  have within : i < b.size := by
    rw [← (solveBy_shape c problems schedule b).2.2]
    exact inside
  obtain ⟨before, found⟩ := b.exists_slot? within
  obtain ⟨after, left, p, held, w, -, -, -, ended⟩ := solveBy_solves (c := c) (i := i)
    (visits.nodup_iff.mpr List.nodup_range) (visits.mem_iff.mpr (List.mem_range.mpr within))
    (Array.getElem?_eq_getElem (complete ▸ within)) found
  obtain ⟨outcome, stored, rfl⟩ := Option.map_eq_some_iff.mp left
  rw [Array.getElem?_eq_getElem inside, Option.some.injEq] at stored
  rw [stored, show outcome = _ from congrArg Slot.outcome ended]
  rfl

end Batch

/-! ### Operations -/

variable [Scalar α]

namespace Operation

/-- What an operation that is not refused makes of `b`, and what it answers. -/
def Effect (b after : Batch α) (answer : Option Batch.Summary) : Operation α → Prop
  | setInitial i values => answer = none ∧ after.outcomes = b.outcomes ∧
      b.Alters after i fun slot => { slot with params := values }
  | setDiag i values => answer = none ∧ after.outcomes = b.outcomes ∧
      b.Alters after i fun slot => { slot with diag := values }
  | solve c problems schedule => answer = some after.summary ∧
      after = b.solveBy c problems schedule

/-- An operation that does not suit the storage is refused, and leaves it as it was; any other
takes effect. -/
theorem perform_cases (op : Operation α) (b : Batch α) :
    op.Suits b.size b.parameterCount ∧
      (∃ answer after, op.perform b = .ok answer after ∧ op.Effect b after answer) ∨
    ¬ op.Suits b.size b.parameterCount ∧ ∃ e, op.perform b = .error e b := by
  cases op with
  | setInitial i values =>
    rcases b.setInitial_cases i values with ⟨fits, after, done, effect⟩ | ⟨misfit, e, refused⟩
    · exact .inl ⟨fits, none, after, by simp only [perform, done], rfl, effect⟩
    · exact .inr ⟨misfit, e, by simp only [perform, refused]⟩
  | setDiag i values =>
    rcases b.setDiag_cases i values with ⟨fits, after, done, effect⟩ | ⟨misfit, e, refused⟩
    · exact .inl ⟨fits, none, after, by simp only [perform, done], rfl, effect⟩
    · exact .inr ⟨misfit, e, by simp only [perform, refused]⟩
  | solve c problems schedule =>
    by_cases counted : problems.size = b.size
    · have solved : b.solveScheduled c problems schedule = .ok (b.solveBy c problems schedule,
          (b.solveBy c problems schedule).summary) := if_neg (not_not_intro counted)
      exact .inl ⟨counted, _, _, by simp only [perform, solved], rfl, rfl⟩
    · have refused : b.solveScheduled c problems schedule =
          .error (.problemCount problems.size b.size) := if_pos counted
      exact .inr ⟨counted, _, by simp only [perform, refused]; rfl⟩

theorem effect_of_perform {op : Operation α} {b after : Batch α} {answer : Option Batch.Summary}
    (done : op.perform b = .ok answer after) :
    op.Suits b.size b.parameterCount ∧ op.Effect b after answer := by
  rcases op.perform_cases b with ⟨suits, _, _, done', effect⟩ | ⟨-, e, refused⟩
  · cases done.symm.trans done'
    exact ⟨suits, effect⟩
  · cases done.symm.trans refused

/-- A refused operation changes nothing at all. -/
theorem eq_of_refused {op : Operation α} {b after : Batch α} {e : Error α}
    (refused : op.perform b = .error e after) :
    ¬ op.Suits b.size b.parameterCount ∧ after = b := by
  rcases op.perform_cases b with ⟨-, _, _, done, -⟩ | ⟨misfit, e', refused'⟩
  · cases done.symm.trans refused
  · cases refused.symm.trans refused'
    exact ⟨misfit, rfl⟩

end Operation

namespace Batch

variable {count m n : Nat}

/-- Storage made for `count` problems of `m` residuals in `n` parameters, after any number of
operations, the refused ones among them. -/
inductive Reachable (count m n : Nat) : Batch α → Prop where
  | new {b : Batch α} (made : Pools.new count m n = .ok b.toPools) : Reachable count m n b
  | ofInitial {b : Batch α} {initial : List (Array α)} (length : initial.length = count)
    (width : (initial.head?.map (·.size)).getD 0 = n)
    (made : Pools.ofInitial m initial = .ok b.toPools) : Reachable count m n b
  | done {b after : Batch α} {answer : Option Summary} (before : Reachable count m n b)
    (op : Operation α) (visits : op.VisitsAll count) (done : op.perform b = .ok answer after) :
    Reachable count m n after
  | refused {b after : Batch α} {e : Error α} (before : Reachable count m n b) (op : Operation α)
    (refused : op.perform b = .error e after) : Reachable count m n after

omit [Scalar α] in
theorem Sound.of_allocated {b : Batch α} (h : b.toPools.Allocated count m n) :
    b.Sound count m n where
  rows := h.rows
  cols := h.cols
  size := by rw [Pools.size, h.outcomes, Array.size_replicate]
  uniform := .inl fun outcome member => by
    rw [h.outcomes] at member
    exact (Array.mem_replicate.mp member).2

/-- An operation keeps the shape of the storage, and visits all slots or none. -/
theorem Sound.perform {b after : Batch α} {op : Operation α} {answer : Option Summary}
    (h : b.Sound count m n) (visits : op.VisitsAll count)
    (done : op.perform b = .ok answer after) : after.Sound count m n := by
  obtain ⟨suits, effect⟩ := Operation.effect_of_perform done
  cases op with
  | setInitial i values => exact h.of_alters effect.2.1 effect.2.2
  | setDiag i values => exact h.of_alters effect.2.1 effect.2.2
  | solve c problems schedule =>
    obtain ⟨-, rfl⟩ := effect
    obtain ⟨rows, cols, size⟩ := b.solveBy_shape c problems schedule
    refine ⟨rows.trans h.rows, cols.trans h.cols, size.trans h.size, .inr ?_⟩
    refine solveBy_solved suits ?_
    rw [h.size]
    exact visits

theorem Reachable.sound {b : Batch α} (h : Reachable count m n b) : b.Sound count m n := by
  induction h with
  | new made => exact .of_allocated (Pools.new_allocated made)
  | ofInitial length width made =>
    exact .of_allocated (length ▸ width ▸ Pools.ofInitial_allocated made)
  | done _ op visits done ih => exact ih.perform visits done
  | refused _ op refused ih => exact (Operation.eq_of_refused refused).2 ▸ ih

theorem Reachable.addressable {b : Batch α} (h : Reachable count m n b) : b.Addressable := by
  induction h with
  | new made => exact (Pools.new_allocated made).addressable
  | ofInitial _ _ made => exact (Pools.ofInitial_allocated made).addressable
  | done before op visits done ih =>
    have sound := before.sound
    have sound' := (before.done op visits done).sound
    exact ih.of_shape (sound'.rows.trans sound.rows.symm) (sound'.cols.trans sound.cols.symm)
      (sound'.size.trans sound.size.symm)
  | refused _ op refused ih => exact (Operation.eq_of_refused refused).2 ▸ ih

/-- A solve leaves a result in every slot, and counts each of them. -/
theorem Sound.solve_summary {b after : Batch α} {answer : Option Summary} {c : Config α}
    {problems : Array (Problem α)} {schedule : Schedule} (h : b.Sound count m n)
    (visits : (Operation.solve c problems schedule).VisitsAll count)
    (done : (Operation.solve c problems schedule).perform b = .ok answer after) :
    ∃ summary, answer = some summary ∧ after.results.length = count ∧
      summary.converged + summary.stopped + summary.failed = count ∧
      summary.totalNfev = (after.results.map fun fit => fit.outcome.nfev).sum := by
  obtain ⟨suits, rfl, rfl⟩ := Operation.effect_of_perform done
  have listed := results_of_solved (solveBy_solved (c := c) suits (h.size ▸ visits))
  have length : (b.solveBy c problems schedule).results.length = count := by
    have lengths := congrArg List.length listed
    rwa [List.length_map, List.length_map, List.length_range,
      (b.solveBy_shape c problems schedule).2.2, h.size] at lengths
  obtain ⟨counts, total⟩ := summary_spec (b.solveBy c problems schedule)
  exact ⟨_, rfl, length, counts.trans length, total⟩

end Batch

/-! ### From the allocation on -/

namespace Pools

variable {count m n : Nat}

/-- Pools allocated for `count` problems of `m` residuals in `n` parameters, after any number of
operations, those among them that were refused or out of bounds. -/
inductive Reachable (count m n : Nat) : Pools α → Prop where
  | new {p : Pools α} (made : new count m n = .ok p) : Reachable count m n p
  | ofInitial {p : Pools α} {initial : List (Array α)} (length : initial.length = count)
    (width : (initial.head?.map (·.size)).getD 0 = n) (made : ofInitial m initial = .ok p) :
    Reachable count m n p
  | done {p after : Pools α} {answer : Option Batch.Summary} (before : Reachable count m n p)
    (op : Operation α) (visits : op.VisitsAll count) (done : op.run p = .ok answer after) :
    Reachable count m n after
  | halted {p after : Pools α} {halt : Halt α} (before : Reachable count m n p)
    (op : Operation α) (halted : op.run p = .error halt after) : Reachable count m n after

/-- Pools whose lengths did not wrap around are storage, and stay so. -/
theorem Reachable.exists_batch (params : count * n < UInt64.size)
    (residuals : count * m < UInt64.size) {p : Pools α} (h : Reachable count m n p) :
    ∃ b : Batch α, b.toPools = p ∧ b.Reachable count m n := by
  induction h with
  | new made =>
    obtain ⟨b, rfl⟩ := (new_allocated made).exists_batch params residuals
    exact ⟨b, rfl, .new made⟩
  | ofInitial length width made =>
    subst length width
    obtain ⟨b, rfl⟩ := (ofInitial_allocated made).exists_batch params residuals
    exact ⟨b, rfl, .ofInitial rfl rfl made⟩
  | done _ op visits done ih =>
    obtain ⟨b, rfl, reached⟩ := ih
    obtain ⟨after, rfl, performed⟩ := reached.addressable.exists_of_done done
    exact ⟨after, rfl, reached.done op visits performed⟩
  | halted _ op halted ih =>
    obtain ⟨b, rfl, reached⟩ := ih
    obtain ⟨e, after, -, rfl, performed⟩ := reached.addressable.exists_of_halted halted
    exact ⟨after, rfl, reached.refused op performed⟩

/-- What holds of batch storage whatever has been done to it, if the lengths of its pools can be
counted in 64 bits. Its pools have room for one stretch of each slot and for nothing else, and every
worker sees its own. Parameters and a scaling are stored in their slot and change nothing but that;
an operation that does not suit the storage is refused, and changes nothing at all. Nothing is ever
out of bounds. No slot has an outcome, or every slot has one: there are no results then, or just one
of each slot, in order. A solve counts every slot once, and all their evaluations. -/
theorem reachable_storage (params : count * n < UInt64.size) (residuals : count * m < UInt64.size)
    {p : Pools α} (h : Reachable count m n p) :
    (p.params.size = count * n ∧ p.residuals.size = count * m ∧ p.diag.size = count * n) ∧
    ∃ b : Batch α, b.toPools = p ∧ (∀ i, p.worker i = some (b.slot? i)) ∧
    (∀ op : Operation α,
      op.Suits count n ∧
        (∃ answer after, op.run p = .ok answer after.toPools ∧ op.Effect b after answer) ∨
      ¬ op.Suits count n ∧ ∃ e, op.run p = .error (.refused e) p) ∧
    ((∀ outcome ∈ p.outcomes, outcome = none) ∧ p.results = some [] ∨
      (∀ outcome ∈ p.outcomes, outcome.isSome) ∧ ∃ fits, p.results = some fits ∧
        (List.range count).map p.result = fits.map (some ∘ some)) ∧
    ∀ c problems schedule after answer,
      (Operation.solve c problems schedule).VisitsAll count →
      (Operation.solve c problems schedule).run p = .ok answer after →
      ∃ summary fits, answer = some summary ∧ after.results = some fits ∧ fits.length = count ∧
        summary.converged + summary.stopped + summary.failed = count ∧
        summary.totalNfev = (fits.map fun fit => fit.outcome.nfev).sum := by
  obtain ⟨b, rfl, reached⟩ := h.exists_batch params residuals
  have sound := reached.sound
  have addressable := reached.addressable
  refine ⟨⟨?_, ?_, ?_⟩, b, rfl, addressable.worker_eq, fun op => ?_, ?_, ?_⟩
  · rw [b.size_params, show b.outcomes.size = count from sound.size, sound.cols]
  · rw [b.size_residuals, show b.outcomes.size = count from sound.size, sound.rows]
  · rw [b.size_diag, show b.outcomes.size = count from sound.size, sound.cols]
  · rw [addressable.run_eq, ← sound.size, ← sound.cols]
    rcases op.perform_cases b with ⟨suits, answer, after, done, effect⟩ | ⟨misfit, e, refused⟩
    · exact .inl ⟨suits, answer, after, by rw [done], effect⟩
    · exact .inr ⟨misfit, e, by rw [refused]⟩
  · -- The results are all or none, as the outcomes are.
    rw [addressable.results_eq]
    refine sound.uniform.imp (fun unsolved => ⟨unsolved, ?_⟩) fun solved => ⟨solved, _, rfl, ?_⟩
    · rw [Batch.results_of_unsolved unsolved]
    · have listed := Batch.results_of_solved solved
      rw [sound.size] at listed
      rw [← List.map_map, listed, List.map_map]
      exact List.map_congr_left fun i _ => addressable.result_eq i
  · intro c problems schedule after answer visits done
    obtain ⟨solved, rfl, performed⟩ := addressable.exists_of_done done
    obtain ⟨summary, answered, length, counts, total⟩ := sound.solve_summary visits performed
    exact ⟨summary, solved.results, answered,
      (reached.done _ visits performed).addressable.results_eq, length, counts, total⟩

/-- Storage that is given a starting point, is refused a scaling for a slot it does not have, and is
solved, all slots by one job and the last one first. -/
theorem reachable_storage_solved :
    2 * 1 < UInt64.size ∧ ∃ (p after : Pools Float) (summary : Batch.Summary)
      (fits : List (Fit Float)), Reachable 2 1 1 p ∧
      (Operation.solve (limited 4) #[rootTwo, rootTwo] [(0, 1), (0, 0)]).run p =
        .ok (some summary) after ∧
      after.results = some fits ∧ fits.length = 2 ∧
      summary.converged + summary.stopped + summary.failed = 2 ∧
      summary.totalNfev = (fits.map fun fit => fit.outcome.nfev).sum := by
  have counted : 2 * 1 < UInt64.size := by decide
  refine ⟨counted, ?_⟩
  obtain ⟨blank, made⟩ : ∃ blank : Pools Float, new 2 1 1 = .ok blank := ⟨_, rfl⟩
  have fresh := Reachable.new made
  obtain ⟨-, _, -, -, answers, -, -⟩ := reachable_storage counted counted fresh
  rcases answers (.setInitial 1 #[3]) with ⟨-, answer, set, done, -⟩ | ⟨misfit, -⟩
  · have started := Reachable.done fresh (.setInitial 1 #[3]) trivial done
    obtain ⟨-, _, -, -, answers, -, -⟩ := reachable_storage counted counted started
    rcases answers (.setDiag 2 #[1]) with ⟨⟨outside, -⟩, -⟩ | ⟨-, e, refused⟩
    · exact absurd outside (by decide)
    · have kept := Reachable.halted started (.setDiag 2 #[1]) refused
      have visits :
          (Operation.solve (limited 4) #[rootTwo, rootTwo] [(0, 1), (0, 0)]).VisitsAll 2 :=
        show [1, 0].Perm (List.range 2) by decide
      obtain ⟨-, _, -, -, answers, -, sums⟩ := reachable_storage counted counted kept
      rcases answers (.solve (limited 4) #[rootTwo, rootTwo] [(0, 1), (0, 0)]) with
        ⟨-, answer, after, done, -⟩ | ⟨misfit, -⟩
      · obtain ⟨summary, fits, rfl, listed, length, counts, total⟩ := sums _ _ _ _ _ visits done
        exact ⟨set.toPools, after.toPools, summary, fits, kept, done, listed, length, counts, total⟩
      · exact absurd rfl misfit
  · exact absurd ⟨by decide, rfl⟩ misfit

/-- Where the length of a pool wraps around there is no room for the slots. Four problems of
`2 ^ 62` residuals get no residuals at all, and to ask for their results is out of bounds. -/
theorem reachable_storage_wrapped : ∃ p : Pools Float,
    new 4 (2 ^ 62) 1 = .ok p ∧ Reachable 4 (2 ^ 62) 1 p ∧ p.residuals.size = 0 ∧
      p.residuals.size ≠ 4 * 2 ^ 62 ∧ p.results = none := by
  obtain ⟨p, made, rfl⟩ : ∃ p : Pools Float, new 4 (2 ^ 62) 1 = .ok p ∧
    p = ⟨2 ^ 62, 1, .replicate 4 0, #[], .replicate 4 1, .replicate 4 none⟩ := ⟨_, rfl, rfl⟩
  exact ⟨_, made, .new made, rfl, by decide, rfl⟩

end Pools

end LeastSquares
