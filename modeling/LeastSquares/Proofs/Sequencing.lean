import LeastSquares.Proofs.Interleaving

/-!
# Jobs that wait for each other

A schedule solves one slot after another. Jobs at work side by side can do the same: each of them
takes up a slot and is left alone until it has given it up. Every schedule is therefore one of the
interleavings of its jobs, and every task that is taken up can be brought to its end.
-/
namespace LeastSquares

variable {α : Type}

/-! ### Writing twice -/

theorem writeStretch_writeStretch {pool values values' : Array α} {stride i : Nat}
    (covered : values.size ≤ values'.size) :
    writeStretch (writeStretch pool stride i values) stride i values' =
      writeStretch pool stride i values' := by
  apply Array.ext
  · simp only [size_writeStretch]
  · intro k _ _
    simp only [writeStretch, overwriteFrom, Array.getElem_mapFinIdx]
    split
    · -- Where the second write has nothing to say, the first one had nothing to say either.
      by_cases inside : k - i * stride < values'.size
      · simp only [Array.getD_eq_getD_getElem?, Array.getElem?_eq_getElem inside, Option.getD_some]
      · have outside : values[k - i * stride]? = none := Array.getElem?_eq_none (by omega)
        have outside' : values'[k - i * stride]? = none := Array.getElem?_eq_none (by omega)
        simp only [Array.getD_eq_getD_getElem?, outside, outside', Option.getD_none]
    · rfl

theorem Batch.store_store {b : Batch α} {i : Nat} {slot slot' : Slot α}
    (params : slot.params.size ≤ slot'.params.size)
    (residuals : slot.residuals.size ≤ slot'.residuals.size)
    (diag : slot.diag.size ≤ slot'.diag.size) :
    (b.store i slot).store i slot' = b.store i slot' := by
  simp only [store, Pools.store, writeStretch_writeStretch params,
    writeStretch_writeStretch residuals, writeStretch_writeStretch diag,
    Array.setIfInBounds_setIfInBounds]

namespace Crew

variable {crew : Crew α}

/-- What a job has written to a slot does not survive its next writing there. -/
theorem update_update {p : Problem α} {job i : Nat} {s s' : State p}
    {outcome outcome' : Option (Outcome α)} {next next' : Job α} :
    (crew.update job i (s.slot outcome) next).update job i (s'.slot outcome') next' =
      crew.update job i (s'.slot outcome') next' := by
  have written : (crew.batch.store i (s.slot outcome)).store i (s'.slot outcome') =
      crew.batch.store i (s'.slot outcome') := by
    apply Batch.store_store
    · exact Nat.le_of_eq (s.x.size_toArray.trans s'.x.size_toArray.symm)
    · exact Nat.le_of_eq (s.residuals.size_toArray.trans s'.residuals.size_toArray.symm)
    · exact Nat.le_of_eq (s.diag.size_toArray.trans s'.diag.size_toArray.symm)
  simp only [update, written, Array.setIfInBounds_setIfInBounds]

/-- The crew after a job has given up slot `i`, where its solve ended as `ending` says. -/
def close {p : Problem α} (job i : Nat) (ending : Termination × State p) (crew : Crew α) :
    Crew α :=
  let run : Run p := .ended ending.1 ending.2
  crew.update job i run.slot (.idle run.workspace)

/-- Of the steps that a job has taken nothing is left once it has given up its slot. -/
theorem close_update {p : Problem α} {job i : Nat} {s : State p} {outcome : Option (Outcome α)}
    {next : Job α} (ending : Termination × State p) :
    (crew.update job i (s.slot outcome) next).close job i ending = crew.close job i ending :=
  @update_update _ crew p job i s ending.2 outcome (some (ending.2.outcome ending.1)) next _

variable [Scalar α] {c : Config α} {problems : Array (Problem α)}

theorem run_append (moves moves' : List Move) :
    crew.run c problems (moves ++ moves') =
      (crew.run c problems moves).bind (·.run c problems moves') :=
  List.foldlM_append

/-! ### One solve without interruption -/

/-- A busy job can always take a step: it finds its slot as it left it. -/
theorem move_step {job : Nat} {t : Task α} {outcome : Option (Outcome α)}
    (present : crew.jobs[job]? = some (.busy t))
    (found : crew.batch.slot? t.slot = some (t.stage.state.slot outcome)) :
    crew.move c problems (.step job) =
      some (crew.proceed c job (t.stage.state.slot outcome) t) := by
  simp only [Crew.move, present, found, Option.map_some, Stage.load_slot]

/-- A job that is left alone brings its task to an end. -/
theorem exists_end (c : Config α) (problems : Array (Problem α)) {steps job : Nat} {t : Task α}
    {outcome : Option (Outcome α)} (present : crew.jobs[job]? = some (.busy t))
    (found : crew.batch.slot? t.slot = some (t.stage.state.slot outcome))
    (rows : t.problem.residualCount = crew.batch.residualCount)
    (cols : t.problem.parameterCount = crew.batch.parameterCount) (given : t.steps = steps) :
    ∃ moves, Move.taken moves = [] ∧ crew.run c problems moves =
      some (crew.close job t.slot (t.stage.run t.tall c t.steps).result) := by
  -- Each step leaves the job with a task of fewer steps, in a crew that differs in its slot only.
  induction steps using Nat.strongRecOn generalizing crew t with
  | ind steps ih =>
    have moved := @move_step _ crew _ c problems job t outcome present found
    cases finished : t.outcome? with
    | some result =>
      refine ⟨[.step job], rfl, ?_⟩
      simp only [Crew.run, List.foldlM_cons, List.foldlM_nil, moved, proceed, finished, close,
        Task.result_of_outcome? finished]
      rfl
    | none =>
      obtain ⟨fewer, same⟩ := Task.run_next (c := c) finished
      let onward := crew.update job t.slot ((t.next c).stage.state.slot outcome) (.busy (t.next c))
      have stepped : crew.move c problems (.step job) = some onward := by
        rw [moved, proceed, finished]
        rfl
      have held : onward.batch.slot? (t.next c).slot = some ((t.next c).stage.state.slot outcome) :=
        Batch.slot?_store_self (Batch.lt_size_of_slot? found)
          ((t.next c).stage.state.slot_fits outcome rows cols)
      obtain ⟨moves, untaken, ran⟩ := ih (t.next c).steps (by omega)
        (jobs_update_self present) held rows cols rfl
      refine ⟨.step job :: moves, untaken, ?_⟩
      rw [Crew.run, List.foldlM_cons, stepped, ← same, ← close_update]
      exact ran

/-- An idle job that takes up a slot and is left alone leaves there what it makes of the slot by one
solve. -/
theorem exists_solve {p : Problem α} {job i : Nat} {slot : Slot α} {w : Workspace α}
    (present : crew.jobs[job]? = some (.idle w)) (known : problems[i]? = some p)
    (found : crew.batch.slot? i = some slot) (suits : w.Suits crew.batch) :
    let run := solve p c slot.params slot.residuals slot.diag w
    ∃ moves, Move.taken moves = [i] ∧
      crew.run c problems moves = some (crew.update job i run.slot (.idle run.workspace)) := by
  intro run
  have moved : crew.move c problems (.take job i) = some (crew.take c p job i slot w) := by
    simp only [Crew.move, present, known, found]
  cases decision : Admission.of p c slot.params slot.residuals slot.diag w with
  | error e =>
    have refused : run = .rejected slot.params slot.residuals slot.diag w e := by
      simp only [run, solve, decision]
    -- A refused solve is over with the move that takes up the slot.
    refine ⟨[.take job i], rfl, ?_⟩
    simp only [Crew.run, List.foldlM_cons, List.foldlM_nil, moved, take, decision, refused]
    rfl
  | ok a =>
    have h := accepted_of_admission decision
    let stage := State.start c h.given.x h.given.residuals h.given.diag h.given.buffers
    let t : Task α := ⟨i, p, h.tall, stepBound (c.budget p.parameterCount), stage⟩
    have rows := h.rows.symm.trans suits.rows
    have cols := h.cols.symm.trans suits.cols
    have begun : crew.take c p job i slot w =
        crew.update job i (stage.state.slot slot.outcome) (.busy t) := by
      rw [take, admission_of_accepted h]
    have held : (crew.update job i (stage.state.slot slot.outcome) (.busy t)).batch.slot? i =
        some (stage.state.slot slot.outcome) :=
      Batch.slot?_store_self (Batch.lt_size_of_slot? found)
        (stage.state.slot_fits slot.outcome rows cols)
    obtain ⟨moves, untaken, ran⟩ := exists_end c problems (t := t)
      (jobs_update_self present) held rows cols rfl
    refine ⟨.take job i :: moves, ?_, ?_⟩
    · rw [← List.singleton_append, Move.taken_append, untaken]
      rfl
    · have whole : run = .ended h.outcome.1 h.outcome.2 := solve_of_accepted h
      rw [Crew.run, List.foldlM_cons, moved, begun, whole]
      refine ran.trans (congrArg some ?_)
      exact close_update h.outcome

/-! ### Schedules -/

/-- All jobs are idle, with the workspaces and the batch of a schedule carried out so far. -/
structure Follows (count : Nat) (r : BatchRun α) (crew : Crew α) : Prop where
  batch : crew.batch = r.batch
  size : crew.jobs.size = count
  jobs (job : Nat) : job < count → crew.jobs[job]? = some (.idle (r.workspace job))
  suits (job : Nat) : (r.workspace job).Suits r.batch

theorem start_follows (b : Batch α) (count : Nat) :
    Follows count (BatchRun.start b) (start b count) where
  batch := rfl
  size := Array.size_replicate
  jobs job inside := by
    rw [start, Array.getElem?_replicate, if_pos inside]
    rfl
  suits := BatchRun.start_suits b

/-- A job that solves a slot without interruption does what an entry of a schedule says. -/
theorem Follows.solveSlot {count : Nat} {r : BatchRun α} (h : Follows count r crew)
    {p : Problem α} {job i : Nat} (among : job < count) (inside : i < r.batch.size)
    (known : problems[i]? = some p) :
    ∃ moves crew', Move.taken moves = [i] ∧ crew.run c problems moves = some crew' ∧
      Follows count (r.solveSlot c p job i) crew' := by
  obtain ⟨slot, found⟩ := r.batch.exists_slot? inside
  have suits : (r.workspace job).Suits crew.batch := h.batch ▸ h.suits job
  obtain ⟨moves, taken, ran⟩ := exists_solve (c := c) (h.jobs job among) known
    (h.batch ▸ found) suits
  obtain ⟨outcome, -, rfl⟩ := Option.map_eq_some_iff.mp found
  refine ⟨moves, _, taken, ran, ?_⟩
  exact {
    batch := congrArg (·.store i (r.slotRun c p job i).slot) h.batch
    size := Array.size_setIfInBounds.trans h.size
    jobs := by
      intro job' among'
      rw [BatchRun.workspace_solveSlot]
      split
      next same =>
        rw [same]
        exact jobs_update_self (h.jobs job among)
      next other => exact (jobs_update_of_ne other).trans (h.jobs job' among')
    suits := by
      intro job'
      have kept := @BatchRun.solveSlot_suits _ _ c p r job i _ h.suits job'
      exact ⟨kept.rows, kept.cols⟩ }

theorem Follows.follow {count : Nat} {r : BatchRun α} (h : Follows count r crew)
    (complete : problems.size = r.batch.size) {schedule : Schedule}
    (jobs : ∀ entry ∈ schedule, entry.1 < count)
    (slots : ∀ entry ∈ schedule, entry.2 < r.batch.size) :
    ∃ moves crew', Move.taken moves = schedule.map Prod.snd ∧
      crew.run c problems moves = some crew' ∧
      Follows count (r.follow c problems schedule) crew' := by
  induction schedule generalizing r crew with
  | nil => exact ⟨[], crew, rfl, rfl, h⟩
  | cons entry rest ih =>
    obtain ⟨job, i⟩ := entry
    have inside : i < r.batch.size := slots _ List.mem_cons_self
    obtain ⟨p, known⟩ : ∃ p, problems[i]? = some p :=
      ⟨_, Array.getElem?_eq_getElem (complete ▸ inside)⟩
    obtain ⟨moves, between, taken, ran, follows⟩ :=
      h.solveSlot (c := c) (jobs _ List.mem_cons_self) inside known
    have size : (r.solveSlot c p job i).batch.size = r.batch.size := Array.size_setIfInBounds
    obtain ⟨moves', last, taken', ran', follows'⟩ := ih follows (complete.trans size.symm)
      (fun entry member => jobs entry (List.mem_cons_of_mem _ member))
      (fun entry member => size.symm ▸ slots entry (List.mem_cons_of_mem _ member))
    refine ⟨moves ++ moves', last, ?_, ?_, ?_⟩
    · rw [Move.taken_append, taken, taken']
      rfl
    · rw [run_append, ran]
      exact ran'
    · rw [BatchRun.follow_cons known]
      exact follows'

end Crew

variable [Scalar α]

/-- Whatever a schedule makes of a batch, jobs at work side by side can make of it, too. -/
theorem Batch.solveBy_interleaved (c : Config α) (problems : Array (Problem α)) (b : Batch α)
    (complete : problems.size = b.size) {count : Nat} {schedule : Schedule}
    (jobs : ∀ entry ∈ schedule, entry.1 < count) (slots : ∀ entry ∈ schedule, entry.2 < b.size) :
    ∃ moves crew, Move.taken moves = schedule.map Prod.snd ∧
      (Crew.start b count).run c problems moves = some crew ∧ crew.jobs.all Job.isIdle ∧
      crew.batch = b.solveBy c problems schedule := by
  obtain ⟨moves, crew, taken, ran, follows⟩ :=
    (Crew.start_follows b count).follow (c := c) complete jobs slots
  refine ⟨moves, crew, taken, ran, ?_, follows.batch⟩
  rw [Array.all_eq_true_iff_forall_mem]
  intro job member
  obtain ⟨k, bound, rfl⟩ := Array.mem_iff_getElem.mp member
  have idle := follows.jobs k (follows.size ▸ bound)
  rw [Array.getElem?_eq_getElem bound] at idle
  rw [Option.some.inj idle]
  rfl

end LeastSquares
