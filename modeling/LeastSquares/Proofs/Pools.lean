import LeastSquares.Batch.Pools
import LeastSquares.Proofs.Slots

/-!
# Pools that can be addressed

Places in a pool are counted in 64 bits. As long as the pools are no longer than that can count,
and have room for all their slots, no place wraps around and none is out of bounds: the work on
pools is the work on storage whose slots own exactly the stretches of its pools.
-/
namespace LeastSquares

variable {α : Type}

/-! ### One slot -/

namespace Pools

theorem checkSlot_eq_ok_iff {p : Pools α} {i length : Nat} :
    p.checkSlot i length = .ok () ↔ i < p.size ∧ length = p.parameterCount := by
  unfold checkSlot
  split
  next outside => exact iff_of_false nofun fun fits => absurd fits.1 (Nat.not_lt.mpr outside)
  next inside =>
    split
    next other => exact iff_of_false nofun fun fits => other fits.2
    next same => exact iff_of_true rfl ⟨Nat.lt_of_not_le inside, Decidable.of_not_not same⟩

variable {pool values : Array α} {length stride i : Nat}

theorem place?_of_room (room : (i + 1) * stride ≤ length) (counted : length < UInt64.size) :
    place? length stride i = some (i * stride, (i + 1) * stride) := by
  have stop := Nat.lt_of_le_of_lt room counted
  have order : i * stride ≤ (i + 1) * stride := Nat.mul_le_mul_right stride (Nat.le_succ i)
  rw [place?, Nat.mod_eq_of_lt stop, Nat.mod_eq_of_lt (Nat.lt_of_le_of_lt order stop),
    if_pos ⟨order, room⟩]

theorem read?_of_room (room : (i + 1) * stride ≤ pool.size) (counted : pool.size < UInt64.size) :
    read? pool stride i = some (stretch pool stride i) := by
  rw [read?, place?_of_room room counted]
  rfl

theorem write?_of_room (room : (i + 1) * stride ≤ pool.size) (counted : pool.size < UInt64.size) :
    write? pool stride i values = some (writeStretch pool stride i values) := by
  rw [write?, place?_of_room room counted]
  rfl

/-- A check that fails refuses the work, and changes nothing. -/
theorem bind_check {check : Except (Error α) Unit} {next : Unit → Pooling α Unit}
    {p : Pools α} : EStateM.bind (ofExcept (check.mapError Halt.refused)) next p =
      match check with
      | .ok _ => next () p
      | .error e => .error (.refused e) p := by
  cases check <;> rfl

end Pools

/-! ### Storage that can be addressed -/

/-- Storage with something in every slot, whose pools are no longer than can be counted. -/
structure Batch.Addressable (b : Batch α) : Prop where
  rows : 0 < b.residualCount
  cols : 0 < b.parameterCount
  params : b.params.size < UInt64.size
  residuals : b.residuals.size < UInt64.size

namespace Batch.Addressable

variable {b : Batch α}

theorem diag (h : b.Addressable) : b.diag.size < UInt64.size := by
  rw [b.size_diag, ← b.size_params]
  exact h.params

/-! Every worker sees its slot, and no one else sees any. -/

theorem worker_eq (h : b.Addressable) (i : Nat) : b.toPools.worker i = some (b.slot? i) := by
  rw [Pools.worker, Pools.slot?]
  cases stored : b.outcomes[i]? with
  | none => rfl
  | some outcome =>
    obtain ⟨params, residuals, diag⟩ := b.room (Array.getElem?_eq_some_iff.mp stored).1
    rw [Pools.read?_of_room params h.params, Pools.read?_of_room residuals h.residuals,
      Pools.read?_of_room diag h.diag]
    rfl

theorem result_eq (h : b.Addressable) (i : Nat) : b.toPools.result i = some (b.result? i) := by
  rw [Pools.result, h.worker_eq]
  rfl

theorem results_eq (h : b.Addressable) : b.toPools.results = some b.results := by
  have each : b.toPools.result = fun i => pure (b.result? i) := funext h.result_eq
  rw [Pools.results, each, List.mapM_pure]
  exact congrArg some List.filterMap_map

/-! What is stored is stored in its slot, or refused. -/

theorem setInitial_eq (h : b.Addressable) (i : Nat) (values : Array α) :
    Pools.setInitial i values b.toPools =
      match b.setInitial i values with
      | .ok after => .ok () after.toPools
      | .error e => .error (.refused e) b.toPools := by
  rw [Batch.setInitial]
  refine Pools.bind_check.trans ?_
  cases checked : b.checkSlot i values.size with
  | error e => rfl
  | ok =>
    have room := (b.room (Pools.checkSlot_eq_ok_iff.mp checked).1).1
    rw [Pools.write?_of_room room h.params]
    rfl

theorem setDiag_eq (h : b.Addressable) (i : Nat) (values : Array α) :
    Pools.setDiag i values b.toPools =
      match b.setDiag i values with
      | .ok after => .ok () after.toPools
      | .error e => .error (.refused e) b.toPools := by
  rw [Batch.setDiag]
  refine Pools.bind_check.trans ?_
  cases checked : b.checkSlot i values.size with
  | error e => rfl
  | ok =>
    have room := (b.room (Pools.checkSlot_eq_ok_iff.mp checked).1).2.2
    rw [Pools.write?_of_room room h.diag]
    rfl

/-! The chunks that a solve is handed are the slots. -/

theorem chunk?_eq (h : b.Addressable) (i : Nat) : b.toPools.chunk? i = b.slot? i := by
  rw [Pools.chunk?]
  by_cases inside : i < b.size
  · -- In front of slot `i` there are `i` stretches in every pool, and another one follows.
    rw [if_pos]
    rw [b.size_params, b.size_residuals, b.size_diag]
    exact ⟨Nat.mul_lt_mul_of_pos_right inside h.cols, Nat.mul_lt_mul_of_pos_right inside h.rows,
      Nat.mul_lt_mul_of_pos_right inside h.cols⟩
  · have absent : b.slot? i = none := by
      rw [Pools.slot?, Array.getElem?_eq_none (Nat.le_of_not_lt inside), Option.map_none]
    rw [absent, ite_self]

theorem store (h : b.Addressable) (i : Nat) (slot : Slot α) : (b.store i slot).Addressable where
  rows := h.rows
  cols := h.cols
  params := Nat.lt_of_le_of_lt (Nat.le_of_eq (size_writeStretch ..)) h.params
  residuals := Nat.lt_of_le_of_lt (Nat.le_of_eq (size_writeStretch ..)) h.residuals

theorem of_shape {after : Batch α} (h : b.Addressable)
    (rows : after.residualCount = b.residualCount) (cols : after.parameterCount = b.parameterCount)
    (size : after.size = b.size) : after.Addressable where
  rows := rows ▸ h.rows
  cols := cols ▸ h.cols
  params := by
    rw [after.size_params, cols, show after.outcomes.size = b.outcomes.size from size,
      ← b.size_params]
    exact h.params
  residuals := by
    rw [after.size_residuals, rows, show after.outcomes.size = b.outcomes.size from size,
      ← b.size_residuals]
    exact h.residuals

variable [Scalar α] {c : Config α} {problems : Array (Problem α)}

/-- A schedule takes pools where it takes the storage they belong to. -/
theorem follow_eq (schedule : Schedule) {r : BatchRun α} (h : r.batch.Addressable)
    (complete : problems.size = r.batch.size) :
    PoolsRun.follow c problems ⟨r.batch.toPools, r.workspaces⟩ schedule =
      let last := r.follow c problems schedule
      ⟨last.batch.toPools, last.workspaces⟩ := by
  induction schedule generalizing r with
  | nil => rfl
  | cons entry rest ih =>
    obtain ⟨job, i⟩ := entry
    simp only [PoolsRun.follow, BatchRun.follow, List.foldl_cons, h.chunk?_eq] at ih ⊢
    cases known : problems[i]? with
    | none => exact ih h complete
    | some p =>
      -- With as many problems as slots, there is a slot for every problem.
      obtain ⟨before, found⟩ := r.batch.exists_slot? (i := i)
        (complete ▸ (Array.getElem?_eq_some_iff.mp known).1)
      have visited : PoolsRun.solveChunk c p job i before ⟨r.batch.toPools, r.workspaces⟩ =
          ⟨(r.solveSlot c p job i).batch.toPools, (r.solveSlot c p job i).workspaces⟩ := by
        obtain ⟨outcome, -, rfl⟩ := Option.map_eq_some_iff.mp found
        rfl
      rw [found]
      dsimp only
      rw [visited]
      exact ih (h.store ..) (complete.trans Array.size_setIfInBounds.symm)

theorem solve_eq (h : b.Addressable) (c : Config α) (problems : Array (Problem α))
    (schedule : Schedule) :
    Pools.solve c problems schedule b.toPools =
      match b.solveScheduled c problems schedule with
      | .ok (solved, summary) => .ok summary solved.toPools
      | .error e => .error (.refused e) b.toPools := by
  change (if problems.size ≠ b.size then _ else _ : Pooling α Batch.Summary) b.toPools = _
  rw [Batch.solveScheduled]
  by_cases complete : problems.size = b.size
  · have solved := follow_eq (c := c) schedule (r := .start b) h complete
    rw [if_neg (not_not_intro complete), if_neg (not_not_intro complete)]
    change EStateM.Result.ok (PoolsRun.follow c problems ⟨b.toPools, []⟩ schedule).pools.summary
      (PoolsRun.follow c problems ⟨b.toPools, []⟩ schedule).pools = _
    rw [show PoolsRun.follow c problems ⟨b.toPools, []⟩ schedule = _ from solved]
    rfl
  · rw [if_pos complete, if_pos complete]
    rfl

/-- Whatever is done to pools that belong to storage, it is never out of bounds. -/
theorem run_eq (h : b.Addressable) (op : Operation α) :
    op.run b.toPools =
      match op.perform b with
      | .ok answer after => .ok answer after.toPools
      | .error e after => .error (.refused e) after.toPools := by
  cases op with
  | setInitial i values =>
    change EStateM.bind (Pools.setInitial i values) _ b.toPools = _
    rw [EStateM.bind, h.setInitial_eq, Operation.perform]
    dsimp only
    cases b.setInitial i values <;> rfl
  | setDiag i values =>
    change EStateM.bind (Pools.setDiag i values) _ b.toPools = _
    rw [EStateM.bind, h.setDiag_eq, Operation.perform]
    dsimp only
    cases b.setDiag i values <;> rfl
  | solve c problems schedule =>
    change EStateM.map some (Pools.solve c problems schedule) b.toPools = _
    rw [EStateM.map, h.solve_eq, Operation.perform]
    dsimp only
    cases b.solveScheduled c problems schedule <;> rfl

/-- What is done to the pools of storage is done to the storage. -/
theorem exists_of_done (h : b.Addressable) {op : Operation α} {answer : Option Batch.Summary}
    {q : Pools α} (done : op.run b.toPools = .ok answer q) :
    ∃ after : Batch α, after.toPools = q ∧ op.perform b = .ok answer after := by
  rw [h.run_eq] at done
  cases performed : op.perform b with
  | ok answer after =>
    rw [performed] at done
    cases done
    exact ⟨after, rfl, rfl⟩
  | error e after =>
    rw [performed] at done
    cases done

/-- What ends work on the pools of storage is that the storage refuses it. -/
theorem exists_of_halted (h : b.Addressable) {op : Operation α} {halt : Halt α} {q : Pools α}
    (halted : op.run b.toPools = .error halt q) :
    ∃ (e : Error α) (after : Batch α), halt = .refused e ∧ after.toPools = q ∧
      op.perform b = .error e after := by
  rw [h.run_eq] at halted
  cases performed : op.perform b with
  | ok answer after =>
    rw [performed] at halted
    cases halted
  | error e after =>
    rw [performed] at halted
    cases halted
    exact ⟨e, after, rfl, rfl, rfl⟩

end Batch.Addressable

/-! ### Pools as they are allocated -/

namespace Pools

/-- Pools allocated for `count` problems of `m` residuals in `n` parameters, before the first
solve. -/
structure Allocated (count m n : Nat) (p : Pools α) : Prop where
  rows : p.residualCount = m
  cols : p.parameterCount = n
  rows_pos : 0 < m
  cols_pos : 0 < n
  params : p.params.size = count * n % UInt64.size
  residuals : p.residuals.size = count * m % UInt64.size
  diag : p.diag.size = count * n % UInt64.size
  outcomes : p.outcomes = .replicate count none

variable {count m n : Nat} {p q : Pools α}

theorem new_allocated [Zero α] [One α] (made : new count m n = .ok p) : p.Allocated count m n := by
  unfold new at made
  split at made
  · cases made
  next shape =>
    cases made
    exact ⟨rfl, rfl, by omega, by omega, Array.size_replicate, Array.size_replicate,
      Array.size_replicate, rfl⟩

theorem Allocated.setInitial (h : p.Allocated count m n) {i : Nat} {values : Array α}
    (done : setInitial i values p = .ok () q) : q.Allocated count m n := by
  have checked := bind_check.symm.trans done
  split at checked
  · cases written : write? p.params p.parameterCount i values with
    | none =>
      rw [written] at checked
      cases checked
    | some params =>
      rw [written] at checked
      cases checked
      -- Values written into a pool take the place of others.
      obtain ⟨-, -, rfl⟩ := Option.map_eq_some_iff.mp written
      exact { h with params := (size_overwriteFrom ..).trans h.params }
  · cases checked

theorem Allocated.setAll (h : p.Allocated count m n) (initial : List (Array α × Nat))
    (done : (initial.forM fun (values, i) => Pools.setInitial i values) p = .ok () q) :
    q.Allocated count m n := by
  induction initial generalizing p with
  | nil =>
    cases done
    exact h
  | cons entry rest ih =>
    -- The rest is done from where the first starting point has left the pools.
    obtain ⟨values, i⟩ := entry
    change EStateM.bind (Pools.setInitial i values) _ p = _ at done
    rw [EStateM.bind] at done
    cases first : Pools.setInitial i values p with
    | ok _ next =>
      rw [first] at done
      exact ih (h.setInitial first) done
    | error halt next =>
      rw [first] at done
      cases done

theorem ofInitial_allocated [Zero α] [One α] {initial : List (Array α)}
    (made : ofInitial m initial = .ok p) :
    p.Allocated initial.length m ((initial.head?.map (·.size)).getD 0) := by
  unfold ofInitial at made
  dsimp only at made
  cases empty : new (α := α) initial.length m ((initial.head?.map (·.size)).getD 0) with
  | error e =>
    rw [empty] at made
    cases made
  | ok blank =>
    rw [empty] at made
    dsimp only [Except.mapError, bind, Except.bind, EStateM.run] at made
    split at made
    next filled done =>
      cases made
      exact (new_allocated empty).setAll _ done
    · cases made

/-- Pools that are as long as they should be have room for all their slots. -/
theorem Allocated.exists_batch (h : p.Allocated count m n) (params : count * n < UInt64.size)
    (residuals : count * m < UInt64.size) : ∃ b : Batch α, b.toPools = p := by
  have size : p.outcomes.size = count := by rw [h.outcomes, Array.size_replicate]
  refine ⟨⟨p, ?_, ?_, ?_⟩, rfl⟩
  · rw [h.params, size, h.cols, Nat.mod_eq_of_lt params]
  · rw [h.residuals, size, h.rows, Nat.mod_eq_of_lt residuals]
  · rw [h.diag, size, h.cols, Nat.mod_eq_of_lt params]

theorem Allocated.addressable {b : Batch α} (h : b.toPools.Allocated count m n) :
    b.Addressable where
  rows := h.rows ▸ h.rows_pos
  cols := h.cols ▸ h.cols_pos
  params := h.params ▸ Nat.mod_lt _ (by decide)
  residuals := h.residuals ▸ Nat.mod_lt _ (by decide)

end Pools

end LeastSquares
