import LeastSquares.Batch.Interleaving
import LeastSquares.Proofs.Slots

/-!
# Jobs do not meet

Jobs at work side by side write to the slots they have taken up and to no others, so a job finds its
slot as it left it. Whatever the order of the moves, a slot that has been given up holds what one
undisturbed solve from its first contents leaves, on the workspace that its job had.
-/
namespace LeastSquares

variable {α : Type}

theorem State.load_slot {p : Problem α} (s : State p) (outcome : Option (Outcome α)) :
    s.load (s.slot outcome) = s := by
  simp [load, slot]

theorem Stage.load_slot {p : Problem α} (stage : Stage p) (outcome : Option (Outcome α)) :
    stage.load (stage.state.slot outcome) = stage := by
  cases stage <;> simp only [load, state, State.load_slot]

/-- The part of a state that goes into a slot has the lengths of the problem. -/
theorem State.slot_fits {p : Problem α} {b : Batch α} (s : State p) (outcome : Option (Outcome α))
    (rows : p.residualCount = b.residualCount) (cols : p.parameterCount = b.parameterCount) :
    (s.slot outcome).Fits b where
  params := s.x.size_toArray.trans cols
  residuals := s.residuals.size_toArray.trans rows
  diag := s.diag.size_toArray.trans cols

theorem Crew.jobs_update_self {crew : Crew α} {job i : Nat} {slot : Slot α} {former next : Job α}
    (present : crew.jobs[job]? = some former) :
    (crew.update job i slot next).jobs[job]? = some next :=
  Array.getElem?_setIfInBounds_self_of_lt (Array.getElem?_eq_some_iff.mp present).1

theorem Crew.jobs_update_of_ne {crew : Crew α} {job job' i : Nat} {slot : Slot α} {next : Job α}
    (other : job' ≠ job) : (crew.update job i slot next).jobs[job']? = crew.jobs[job']? :=
  Array.getElem?_setIfInBounds_ne (Ne.symm other)

theorem Move.taken_append (moves moves' : List Move) :
    taken (moves ++ moves') = taken moves ++ taken moves' :=
  List.filterMap_append

/-- After an update a job is the one that was updated, or another one that goes on as before. -/
theorem Crew.jobs_update_cases {crew : Crew α} {job job' i : Nat} {slot : Slot α}
    {former next now : Job α} (present : crew.jobs[job]? = some former)
    (found : (crew.update job i slot next).jobs[job']? = some now) :
    job' = job ∧ next = now ∨ job' ≠ job ∧ crew.jobs[job']? = some now := by
  by_cases same : job' = job
  · rw [same, jobs_update_self present] at found
    exact .inl ⟨same, Option.some.inj found⟩
  · rw [jobs_update_of_ne same] at found
    exact .inr ⟨same, found⟩

variable [Scalar α]

/-! ### Tasks -/

namespace Task

variable {c : Config α} {t : Task α}

/-- A task that has ended has nothing more to run. -/
theorem result_of_outcome? {info : Termination} {s : State t.problem}
    (ended : t.outcome? = some (info, s)) :
    (t.stage.run t.tall c t.steps).result = (info, s) := by
  obtain ⟨slot, p, tall, steps, stage⟩ := t
  cases steps with
  | zero => exact Option.some.inj ended
  | succ steps =>
    cases stage with
    | linearize s => cases ended
    | attempt s => cases ended
    | stopped info s => exact Option.some.inj ended

/-- A step that a task takes is the first of those it had before it. -/
theorem run_next (going : t.outcome? = none) :
    (t.next c).steps + 1 = t.steps ∧
      (t.next c).stage.run t.tall c (t.next c).steps = t.stage.run t.tall c t.steps := by
  obtain ⟨slot, p, tall, steps, stage⟩ := t
  cases steps with
  | zero => cases going
  | succ steps =>
    cases stage with
    | linearize s => exact ⟨rfl, rfl⟩
    | attempt s => exact ⟨rfl, rfl⟩
    | stopped info s => cases going

/-- The rest of a task makes of the contents that its slot had at first what a solve on the
workspace `w` makes of them. -/
def Completes (c : Config α) (t : Task α) (before : Slot α) (w : Workspace α) : Prop :=
  ∃ h : Accepted t.problem c before.params before.residuals before.diag w,
    (t.stage.run t.tall c t.steps).result = h.outcome

variable {before : Slot α} {w : Workspace α}

theorem Completes.solve_eq (h : t.Completes c before w) {info : Termination} {s : State t.problem}
    (ended : t.outcome? = some (info, s)) :
    solve t.problem c before.params before.residuals before.diag w = .ended info s := by
  obtain ⟨accepted, rest⟩ := h
  rw [solve_of_accepted accepted, ← rest, result_of_outcome? ended]

theorem Completes.next (h : t.Completes c before w) (going : t.outcome? = none) :
    (t.next c).Completes c before w := by
  obtain ⟨accepted, rest⟩ := h
  exact ⟨accepted, (congrArg Stage.result (run_next going).2).trans rest⟩

end Task

/-! ### Crews -/

namespace Crew

variable {c : Config α} {problems : Array (Problem α)} {b : Batch α} {crew : Crew α}

/-- What holds of a crew that has taken up the slots in `visited`, when the batch was `b` at
first. -/
structure Sound (c : Config α) (problems : Array (Problem α)) (b : Batch α) (visited : Nat → Prop)
    (crew : Crew α) : Prop where
  rows : crew.batch.residualCount = b.residualCount
  cols : crew.batch.parameterCount = b.parameterCount
  idle (job : Nat) (w : Workspace α) : crew.jobs[job]? = some (.idle w) → w.Suits b
  /-- A slot that no job has taken up is as it was. -/
  untouched (i : Nat) : ¬ visited i → crew.batch.slot? i = b.slot? i
  /-- A busy job is carrying out the solve of its slot, and the slot holds what it left there. -/
  busy (job : Nat) (t : Task α) : crew.jobs[job]? = some (.busy t) →
    visited t.slot ∧ problems[t.slot]? = some t.problem ∧
      (∃ outcome, crew.batch.slot? t.slot = some (t.stage.state.slot outcome)) ∧
      ∃ before w, b.slot? t.slot = some before ∧ w.Suits b ∧ t.Completes c before w
  /-- No two jobs are busy with one slot. -/
  apart (job job' : Nat) (t t' : Task α) : crew.jobs[job]? = some (.busy t) →
    crew.jobs[job']? = some (.busy t') → t.slot = t'.slot → job = job'
  /-- A slot that was taken up is still being solved or holds what its solve left. -/
  solved (i : Nat) : visited i →
    (∃ (job : Nat) (t : Task α), crew.jobs[job]? = some (.busy t) ∧ t.slot = i) ∨
      ∃ after, crew.batch.slot? i = some after ∧ b.Solves c problems i after

/-- A job that writes to a slot which no other job is busy with does no harm. -/
theorem Sound.update {visited : Nat → Prop} (h : Sound c problems b visited crew) {job i : Nat}
    {slot : Slot α} {former next : Job α} (present : crew.jobs[job]? = some former)
    (inside : i < crew.batch.size) (fits : slot.Fits crew.batch)
    (own : ∀ t, former = .busy t → t.slot = i)
    (others : ∀ job' t, crew.jobs[job']? = some (.busy t) → t.slot = i → job' = job)
    (idle : ∀ w, next = .idle w → w.Suits b ∧ b.Solves c problems i slot)
    (busy : ∀ t, next = .busy t → t.slot = i ∧ problems[i]? = some t.problem ∧
      (∃ outcome, slot = t.stage.state.slot outcome) ∧
      ∃ before w, b.slot? i = some before ∧ w.Suits b ∧ t.Completes c before w) :
    Sound c problems b (fun k => k = i ∨ visited k) (crew.update job i slot next) := by
  have here : (crew.update job i slot next).batch.slot? i = some slot :=
    Batch.slot?_store_self inside fits
  have elsewhere {k : Nat} (other : k ≠ i) :
      (crew.update job i slot next).batch.slot? k = crew.batch.slot? k :=
    Batch.slot?_store_of_ne (Ne.symm other) (Nat.le_of_eq fits.params)
      (Nat.le_of_eq fits.residuals) (Nat.le_of_eq fits.diag)
  -- A job other than this one is busy with another slot.
  have distinct {job' : Nat} {t : Task α} (other : job' ≠ job)
      (found : crew.jobs[job']? = some (.busy t)) : t.slot ≠ i :=
    fun same => other (others job' t found same)
  exact {
    rows := h.rows
    cols := h.cols
    idle := by
      intro job' w found
      rcases jobs_update_cases present found with ⟨-, now⟩ | ⟨-, found⟩
      · exact (idle w now).1
      · exact h.idle job' w found
    untouched := by
      intro k unvisited
      rw [elsewhere fun same => unvisited (.inl same)]
      exact h.untouched k fun before => unvisited (.inr before)
    busy := by
      intro job' t found
      rcases jobs_update_cases present found with ⟨-, now⟩ | ⟨other, found⟩
      · obtain ⟨rfl, known, ⟨outcome, left⟩, solving⟩ := busy t now
        exact ⟨.inl rfl, known, ⟨outcome, here.trans (congrArg some left)⟩, solving⟩
      · rw [elsewhere (distinct other found)]
        obtain ⟨taken, solving⟩ := h.busy job' t found
        exact ⟨.inr taken, solving⟩
    apart := by
      intro job₁ job₂ t₁ t₂ found₁ found₂ slots
      rcases jobs_update_cases present found₁ with ⟨same₁, now₁⟩ | ⟨other₁, found₁⟩
      · rcases jobs_update_cases present found₂ with ⟨same₂, -⟩ | ⟨other₂, found₂⟩
        · exact same₁.trans same₂.symm
        · exact absurd (slots.symm.trans (busy t₁ now₁).1) (distinct other₂ found₂)
      · rcases jobs_update_cases present found₂ with ⟨-, now₂⟩ | ⟨-, found₂⟩
        · exact absurd (slots.trans (busy t₂ now₂).1) (distinct other₁ found₁)
        · exact h.apart job₁ job₂ t₁ t₂ found₁ found₂ slots
    solved := by
      intro k visited
      by_cases same : k = i
      · subst same
        cases next with
        | idle w => exact .inr ⟨slot, here, (idle w rfl).2⟩
        | busy t => exact .inl ⟨job, t, jobs_update_self present, (busy t rfl).1⟩
      · rw [elsewhere same]
        rcases h.solved k (visited.resolve_left same) with ⟨job', t, found, solving⟩ | done
        · -- Had this job been busy with slot `k`, then `k` would be the slot it writes to.
          have other : job' ≠ job := by
            rintro rfl
            exact same (solving.symm.trans (own t (Option.some.inj (present.symm.trans found))))
          exact .inl ⟨job', t, (jobs_update_of_ne other).trans found, solving⟩
        · exact .inr done }

theorem start_sound (c : Config α) (problems : Array (Problem α)) (b : Batch α) (count : Nat) :
    Sound c problems b (fun _ => False) (start b count) := by
  have idle {job : Nat} {next : Job α} (found : (start b count).jobs[job]? = some next) :
      next = .idle (.new b.residualCount b.parameterCount) := by
    obtain ⟨bound, found⟩ := Array.getElem?_eq_some_iff.mp found
    exact found.symm.trans (Array.getElem_replicate bound)
  exact {
    rows := rfl
    cols := rfl
    idle := by
      intro job w found
      cases idle found
      exact ⟨rfl, rfl⟩
    untouched := fun _ _ => rfl
    busy := fun _ _ found => by cases idle found
    apart := fun _ _ _ _ found _ _ => by cases idle found
    solved := fun _ visited => visited.elim }

theorem take_sound {visited : Nat → Prop} (h : Sound c problems b visited crew) {p : Problem α}
    {job i : Nat} {slot : Slot α} {w : Workspace α} (present : crew.jobs[job]? = some (.idle w))
    (known : problems[i]? = some p) (found : crew.batch.slot? i = some slot)
    (unvisited : ¬ visited i) :
    Sound c problems b (fun k => k = i ∨ visited k) (crew.take c p job i slot w) := by
  have inside := Batch.lt_size_of_slot? found
  have suits := h.idle job w present
  -- The slot still holds what it held at first, because nobody has taken it up.
  have first : b.slot? i = some slot := (h.untouched i unvisited).symm.trans found
  have others (job' : Nat) (t : Task α) (busy : crew.jobs[job']? = some (.busy t))
      (same : t.slot = i) : job' = job :=
    absurd (same ▸ (h.busy job' t busy).1) unvisited
  unfold take
  cases decision : Admission.of p c slot.params slot.residuals slot.diag w with
  | error e =>
    -- The solve is over at once, and has changed nothing but the outcome.
    have fits := Batch.fits_of_slot? found
    refine h.update present inside ⟨fits.params, fits.residuals, fits.diag⟩
      (fun _ busy => by cases busy) others ?_ (fun _ busy => by cases busy)
    intro w' same
    cases same
    exact ⟨suits, p, slot, w, known, first, suits, by rw [solve, decision]⟩
  | ok a =>
    have accepted := accepted_of_admission decision
    rw [admission_of_accepted accepted] at decision
    cases decision
    have fits := State.slot_fits
      (State.start c accepted.given.x accepted.given.residuals accepted.given.diag
        accepted.given.buffers).state slot.outcome
      ((accepted.rows.symm.trans suits.rows).trans h.rows.symm)
      ((accepted.cols.symm.trans suits.cols).trans h.cols.symm)
    refine h.update present inside fits (fun _ busy => by cases busy) others
      (fun _ idle => by cases idle) ?_
    intro t same
    cases same
    exact ⟨rfl, known, ⟨slot.outcome, rfl⟩, slot, w, first, suits, accepted, rfl⟩

theorem proceed_sound {visited : Nat → Prop} (h : Sound c problems b visited crew) {job : Nat}
    {t : Task α} {slot : Slot α} (present : crew.jobs[job]? = some (.busy t))
    (found : crew.batch.slot? t.slot = some slot) :
    Sound c problems b visited
      (crew.proceed c job slot { t with stage := t.stage.load slot }) := by
  obtain ⟨taken, known, ⟨outcome, left⟩, before, w, first, suits, completes⟩ :=
    h.busy job t present
  -- Nobody else has written to the slot, so the task finds what it left there.
  have same : slot = t.stage.state.slot outcome := Option.some.inj (found.symm.trans left)
  have unchanged : { t with stage := t.stage.load slot } = t := by
    rw [same, Stage.load_slot]
  rw [unchanged]
  -- The slot has been visited already, so `Sound.update` adds nothing to what has.
  have visits : (fun k => k = t.slot ∨ visited k) = visited := by
    funext k
    refine propext ⟨?_, .inr⟩
    rintro (rfl | before)
    · exact taken
    · exact before
  have inside := Batch.lt_size_of_slot? found
  have own (t' : Task α) (busy : Job.busy t = .busy t') : t'.slot = t.slot := by
    cases busy
    rfl
  have others (job' : Nat) (t' : Task α) (busy : crew.jobs[job']? = some (.busy t'))
      (slots : t'.slot = t.slot) : job' = job :=
    h.apart job' job t' t busy present slots
  have ⟨accepted, _⟩ := completes
  have rows := (accepted.rows.symm.trans suits.rows).trans h.rows.symm
  have cols := (accepted.cols.symm.trans suits.cols).trans h.cols.symm
  unfold proceed
  rw [← visits]
  cases ended : t.outcome? with
  | some result =>
    obtain ⟨info, s⟩ := result
    have solved := completes.solve_eq ended
    refine h.update present inside (s.slot_fits (some (s.outcome info)) rows cols) own others ?_
      (fun _ busy => by cases busy)
    intro w' idle
    cases idle
    refine ⟨?_, t.problem, before, w, known, first, suits, by rw [solved]⟩
    exact ⟨accepted.rows.symm.trans suits.rows, accepted.cols.symm.trans suits.cols⟩
  | none =>
    refine h.update present inside ((t.next c).stage.state.slot_fits slot.outcome rows cols) own
      others (fun _ idle => by cases idle) ?_
    intro t' busy
    cases busy
    exact ⟨rfl, known, ⟨slot.outcome, rfl⟩, before, w, first, suits, completes.next ended⟩

/-- One move, if it takes up no slot for a second time. -/
theorem move_sound {visited : Nat → Prop} (h : Sound c problems b visited crew) {move : Move}
    {crew' : Crew α} (moved : crew.move c problems move = some crew')
    (fresh : ∀ i ∈ Move.taken [move], ¬ visited i) :
    Sound c problems b (fun k => k ∈ Move.taken [move] ∨ visited k) crew' := by
  cases move with
  | take job i =>
    have taken : (fun k => k ∈ Move.taken [.take job i] ∨ visited k) =
        fun k => k = i ∨ visited k := by
      funext k
      simp [Move.taken]
    rw [taken]
    simp only [Crew.move] at moved
    split at moved
    next w p slot present known found =>
      cases moved
      exact take_sound h present known found (fresh i (by simp [Move.taken]))
    next => cases moved
  | step job =>
    have taken : (fun k => k ∈ Move.taken [.step job] ∨ visited k) = visited := by
      funext k
      simp [Move.taken]
    rw [taken]
    simp only [Crew.move] at moved
    split at moved
    next t present =>
      obtain ⟨slot, found, rfl⟩ := Option.map_eq_some_iff.mp moved
      exact proceed_sound h present found
    next => cases moved

/-- Any number of moves, of which no two take up the same slot. -/
theorem run_sound {visited : Nat → Prop} (h : Sound c problems b visited crew)
    {moves : List Move} {crew' : Crew α} (ran : crew.run c problems moves = some crew')
    (once : (Move.taken moves).Nodup) (fresh : ∀ i ∈ Move.taken moves, ¬ visited i) :
    Sound c problems b (fun k => k ∈ Move.taken moves ∨ visited k) crew' := by
  induction moves generalizing crew visited with
  | nil =>
    cases ran
    simpa [Move.taken] using h
  | cons move rest ih =>
    -- The first move takes up a slot that is fresh, and the others take up other slots.
    rw [← List.singleton_append, Move.taken_append] at once fresh ⊢
    obtain ⟨-, onceRest, apart⟩ := List.nodup_append.mp once
    simp only [run, List.foldlM_cons] at ran
    obtain ⟨between, moved, ran⟩ := Option.bind_eq_some_iff.mp ran
    have next := move_sound h moved fun i now => fresh i (List.mem_append_left _ now)
    have done := ih next ran onceRest ?_
    · have visits : (fun k => k ∈ Move.taken [move] ++ Move.taken rest ∨ visited k) =
          fun k => k ∈ Move.taken rest ∨ k ∈ Move.taken [move] ∨ visited k := by
        funext k
        rw [List.mem_append, or_comm (a := k ∈ Move.taken [move]), or_assoc]
      rw [visits]
      exact done
    · rintro i later (now | before)
      · exact apart i now i later rfl
      · exact fresh i (List.mem_append_right _ later) before

/-- When all jobs are idle again, every slot that was taken up holds what its solve left, in
whatever order the jobs moved. -/
theorem run_solves {moves : List Move} {count : Nat}
    (ran : (start b count).run c problems moves = some crew) (once : (Move.taken moves).Nodup)
    (rest : crew.jobs.all Job.isIdle) {i : Nat} (taken : i ∈ Move.taken moves) :
    ∃ after, crew.batch.slot? i = some after ∧ b.Solves c problems i after := by
  have sound := run_sound (start_sound c problems b count) ran once fun _ _ => id
  rcases sound.solved i (.inl taken) with ⟨job, t, busy, -⟩ | solved
  · have idle := Array.all_eq_true_iff_forall_mem.mp rest _ (Array.mem_of_getElem? busy)
    cases idle
  · exact solved

end Crew

end LeastSquares
