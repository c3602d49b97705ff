import LeastSquares.Proofs.Interleaving
import LeastSquares.Proofs.Reuse
import LeastSquares.Proofs.Outcome

/-!
# Solving in a batch and alone

The jobs of a batch hand their workspaces from slot to slot, so what a slot finds in its workspace
depends on the schedule. What a solve leaves in its slot does not, apart from one leak: a problem
that fails at its second evaluation and writes only part of its residuals leaves the rest of them as
the workspace held it.
-/
namespace LeastSquares

variable {α : Type} [Scalar α]

/-- A fit hands back what its solve did. -/
theorem fitWithScaling_eq (p : Problem α) (c : Config α) (start diag : Array α) :
    let run := solve p c start (Array.replicate p.residualCount 0) diag
      (.new p.residualCount start.size)
    let fit := (fitWithScaling p c start diag).1
    fit.params = run.x ∧ fit.residuals = run.residuals ∧ fit.diag = run.diag ∧
      fit.outcome = run.outcome := by
  unfold fitWithScaling
  dsimp only
  split
  · split <;> exact ⟨rfl, rfl, rfl, rfl⟩
  · exact ⟨rfl, rfl, rfl, rfl⟩

/-! ### What a slot is left with -/

/-- `after` is what solving `p` alone makes of the slot contents `before`: the iterate, the scaling,
the way the solve ended and both counts always, the residuals and their norm unless it was aborted.
A solve that was neither refused nor aborted has found what a fit from the same start finds. -/
def Slot.SolvedAlone (c : Config α) (p : Problem α) (m n : Nat) (before after : Slot α) : Prop :=
  let alone := solve p c before.params before.residuals before.diag (.new m n)
  let fit := (fitWithScaling p c before.params before.diag).1
  ∃ o, after.outcome = some o ∧
    after.params = alone.x ∧ after.diag = alone.diag ∧ o.info = alone.outcome.info ∧
    o.nfev = alone.outcome.nfev ∧ o.iterations = alone.outcome.iterations ∧
    (o.info.isAbort = false →
      after.residuals = alone.residuals ∧ o.fnorm = alone.outcome.fnorm) ∧
    (o.info ≠ .invalidInput → o.info.isAbort = false →
      after.params = fit.params ∧ after.residuals = fit.residuals ∧ after.diag = fit.diag ∧
        o = fit.outcome)

theorem Batch.Solves.solvedAlone {c : Config α} {problems : Array (Problem α)} {b : Batch α}
    {i : Nat} {p : Problem α} {before after : Slot α} (h : b.Solves c problems i after)
    (overwrites : p.Overwrites) (known : problems[i]? = some p)
    (found : b.slot? i = some before) :
    before.SolvedAlone c p b.residualCount b.parameterCount after := by
  obtain ⟨p', before', w, known', found', suits, rfl⟩ := h
  cases known.symm.trans known'
  cases found.symm.trans found'
  let new : Workspace α := .new b.residualCount b.parameterCount
  obtain ⟨x, diag, info, nfev, iterations, completed⟩ :=
    solve_reused overwrites c before.params before.residuals before.diag (w := new) suits.rows
      suits.cols
  refine ⟨_, rfl, x, diag, info, nfev, iterations, ?_, ?_⟩
  · intro ordinary
    exact completed (info ▸ ordinary)
  · intro valid ordinary
    -- A fit starts on buffers of zeros of its own, and no completed solve can tell.
    have accepted := accepted_of_info_ne valid
    have fits : Accepted p c before.params (Array.replicate p.residualCount 0) before.diag
        (.new p.residualCount before.params.size) :=
      { accepted with
        size_residuals := Array.size_replicate
        rows := rfl
        cols := accepted.size_x }
    obtain ⟨params, residuals, scaling, outcome⟩ :=
      fitWithScaling_eq p c before.params before.diag
    have same := solve_eq_of_accepted overwrites accepted fits (fun _ => rfl) ordinary
    rw [same] at params residuals scaling outcome
    exact ⟨params.symm, residuals.symm, scaling.symm, outcome.symm⟩

/-- A batch leaves in every slot what solving its problem alone would leave there, however the slots
are shared out among jobs, in whatever order each job takes its slots, and however the jobs are
interleaved: slot after slot as a schedule says, or with all jobs at work side by side and moving
in any order. -/
theorem batch_solvedAlone (c : Config α) (problems : Array (Problem α)) (b : Batch α)
    (complete : problems.size = b.size) (overwrites : ∀ p ∈ problems, p.Overwrites) :
    (∀ schedule : Schedule, (schedule.map Prod.snd).Perm (List.range b.size) →
      ∃ solved summary, b.solveScheduled c problems schedule = .ok (solved, summary) ∧
        ∀ i p before, problems[i]? = some p → b.slot? i = some before →
          ∃ after, solved.slot? i = some after ∧
            before.SolvedAlone c p b.residualCount b.parameterCount after) ∧
    (∀ (count : Nat) (moves : List Move) (crew : Crew α),
      (Move.taken moves).Perm (List.range b.size) →
      (Crew.start b count).run c problems moves = some crew → crew.jobs.all Job.isIdle →
        ∀ i p before, problems[i]? = some p → b.slot? i = some before →
          ∃ after, crew.batch.slot? i = some after ∧
            before.SolvedAlone c p b.residualCount b.parameterCount after) := by
  constructor
  · intro schedule visits
    have counted : ¬ problems.size ≠ b.size := fun other => other complete
    refine ⟨_, _, if_neg counted, ?_⟩
    intro i p before known found
    -- Its one visit solves the slot, on whatever workspace the job has by then.
    have visited := visits.mem_iff.mpr (List.mem_range.mpr (Batch.lt_size_of_slot? found))
    obtain ⟨after, left, solves⟩ := Batch.solveBy_solves (c := c)
      (visits.nodup_iff.mpr List.nodup_range) visited known found
    exact ⟨after, left, solves.solvedAlone (overwrites p (Array.mem_of_getElem? known)) known found⟩
  · intro count moves crew visits ran rest i p before known found
    have visited := visits.mem_iff.mpr (List.mem_range.mpr (Batch.lt_size_of_slot? found))
    obtain ⟨after, left, solves⟩ := Crew.run_solves ran
      (visits.nodup_iff.mpr List.nodup_range) rest visited
    exact ⟨after, left, solves.solvedAlone (overwrites p (Array.mem_of_getElem? known)) known found⟩

/-- Storage for two solves of one residual in one parameter, from `0.1` and from `3`. -/
def pair : Batch Float where
  residualCount := 1
  parameterCount := 1
  params := #[0.1, 3]
  residuals := #[0, 0]
  diag := #[1, 1]
  outcomes := #[none, none]
  size_params := rfl
  size_residuals := rfl
  size_diag := rfl

/-- One job that takes the slots in reverse, and two jobs that take turns. -/
theorem batch_solvedAlone_pair :
    let c : Config Float := { Config.default with maxfev := some 4 }
    let turns : List Move :=
      [.take 0 0, .take 1 1, .step 1, .step 0, .step 1, .step 1, .step 0, .step 0, .step 1,
        .step 0, .step 1]
    (∃ solved summary before after,
      pair.solveScheduled c #[rootTwo, rootTwo] [(0, 1), (0, 0)] = .ok (solved, summary) ∧
        pair.slot? 0 = some before ∧ solved.slot? 0 = some after ∧
        before.SolvedAlone c rootTwo 1 1 after) ∧
    ∃ crew before after,
      (Crew.start pair 2).run c #[rootTwo, rootTwo] turns = some crew ∧
        crew.jobs.all Job.isIdle ∧ pair.slot? 1 = some before ∧
        crew.batch.slot? 1 = some after ∧ before.SolvedAlone c rootTwo 1 1 after := by
  intro c turns
  have overwrites : ∀ p ∈ #[rootTwo, rootTwo], p.Overwrites := by
    intro p member
    have same : p = rootTwo := by simpa using member
    rw [same]
    exact Formula.system_overwrites _ _
  obtain ⟨scheduled, interleaved⟩ := batch_solvedAlone c #[rootTwo, rootTwo] pair rfl overwrites
  constructor
  · obtain ⟨solved, summary, ok, slots⟩ := scheduled [(0, 1), (0, 0)] (by decide)
    obtain ⟨after, left, alone⟩ := slots 0 rootTwo _ rfl rfl
    exact ⟨solved, summary, _, after, ok, rfl, left, alone⟩
  · -- The moves are all possible and end with two idle jobs: this is computed.
    have possible : ((Crew.start pair 2).run c #[rootTwo, rootTwo] turns).any
        (·.jobs.all Job.isIdle) := by decide +kernel
    obtain ⟨crew, ran, rest⟩ := (Option.any_eq_true _ _).mp possible
    obtain ⟨after, left, alone⟩ := interleaved 2 turns crew (by decide) ran rest 1 rootTwo _ rfl rfl
    exact ⟨crew, _, after, ran, rest, rfl, left, alone⟩

/-! ### The leak -/

/-- What an aborted slot is left with. The residuals and their norm are those that solving the
problem alone would leave, except when the abort came at the second evaluation: then they are what
that evaluation made of the buffer for trials as an earlier slot of the same job left it, and equal
to those of a solve alone just when the evaluation makes the same of zeros. -/
theorem batch_aborted_iff (c : Config α) (problems : Array (Problem α)) (b : Batch α)
    (earlier later : Schedule) (job i : Nat) (p : Problem α) (before : Slot α)
    (complete : problems.size = b.size)
    (visits : ((earlier ++ (job, i) :: later).map Prod.snd).Perm (List.range b.size))
    (known : problems[i]? = some p) (found : b.slot? i = some before)
    (overwrites : p.Overwrites) :
    let w := ((BatchRun.start b).follow c problems earlier).workspace job
    let alone := solve p c before.params before.residuals before.diag
      (.new b.residualCount b.parameterCount)
    ∃ solved summary after o,
      b.solveScheduled c problems (earlier ++ (job, i) :: later) = .ok (solved, summary) ∧
      solved.slot? i = some after ∧ after.outcome = some o ∧
      (o.info.isAbort → ∃ (point : Vector α p.parameterCount) (used : Vector α p.residualCount),
        after.params = point.toArray ∧ used.toArray = w.buffers.trial.toArray ∧
        (o.nfev = 2 → after.residuals = (p.eval 2 point used).buffer.toArray) ∧
        (after.residuals = alone.residuals ∧ o.fnorm = alone.outcome.fnorm ↔
          (o.nfev = 2 → (p.eval 2 point used).buffer =
            (p.eval 2 point (Vector.replicate p.residualCount 0)).buffer))) := by
  intro w alone
  have counted : ¬ problems.size ≠ b.size := fun other => other complete
  have once := visits.nodup_iff.mpr List.nodup_range
  rw [List.map_append, List.map_cons, List.nodup_append] at once
  obtain ⟨-, turn, apart⟩ := once
  -- The workspace of the job at the turn of slot `i` is the one that its entries before it left.
  have notBefore : i ∉ earlier.map Prod.snd :=
    fun before => apart i before i List.mem_cons_self rfl
  have left := @Batch.solveBy_slot? _ _ c problems b earlier later job i p before notBefore
    (List.nodup_cons.mp turn).1 known found
  have suits : w.Suits b := BatchRun.follow_suits (BatchRun.start_suits b) earlier job
  refine ⟨_, _, _, _, if_neg counted, left, rfl, ?_⟩
  exact solve_aborted_iff overwrites c before.params before.residuals before.diag suits.rows
    suits.cols

/-- The problem `rootTwo`, but its second evaluation fails before it writes anything. -/
def stopping : Problem Float :=
  rootTwo.interrupted [⟨2, 0, .aborted 1⟩]

/-- The condition at work: one job, whose second slot is aborted at its second evaluation. -/
theorem batch_aborted_iff_pair :
    let c : Config Float := { Config.default with maxfev := some 4 }
    ∃ solved summary after o,
      pair.solveScheduled c #[rootTwo, stopping] [(0, 0), (0, 1)] = .ok (solved, summary) ∧
      solved.slot? 1 = some after ∧ after.outcome = some o ∧ o.info = .userAbort (-1) ∧
      ∃ point used : Vector Float 1, after.params = point.toArray ∧
        after.residuals = (stopping.eval 2 point used).buffer.toArray := by
  intro c
  have ending : (((pair.solveBy c #[rootTwo, stopping] [(0, 0), (0, 1)]).slot? 1).bind
      Slot.outcome).map (fun o => (o.info, o.nfev)) = some (.userAbort (-1), 2) := by
    decide +kernel
  obtain ⟨solved, summary, after, o, ok, left, outcome, aborted⟩ :=
    batch_aborted_iff c #[rootTwo, stopping] pair [(0, 0)] [] 0 1 stopping _ rfl (by decide) rfl rfl
      ((Formula.system_overwrites _ _).interrupted _)
  have same : pair.solveBy c #[rootTwo, stopping] [(0, 0), (0, 1)] = solved := by
    cases ok
    rfl
  rw [same, left] at ending
  simp only [Option.bind_some, outcome, Option.map_some, Option.some.injEq, Prod.mk.injEq] at ending
  obtain ⟨info, second⟩ := ending
  obtain ⟨point, used, params, -, residuals, -⟩ := aborted (by rw [info]; rfl)
  exact ⟨solved, summary, after, o, ok, left, outcome, info, point, used, params, residuals second⟩

/-- The second slot ends up with the residuals of the first one, which solving its problem alone
would never have shown. -/
theorem batch_aborted_leaks :
    let c : Config Float := { Config.default with maxfev := some 4 }
    let solved := pair.solveBy c #[rootTwo, stopping] [(0, 0), (0, 1)]
    let alone := solve stopping c #[3] #[0] #[1] (.new 1 1)
    alone.outcome.info = .userAbort (-1) ∧
      ((solved.slot? 1).bind Slot.outcome).map Outcome.info = some (.userAbort (-1)) ∧
      (solved.slot? 1).map Slot.residuals ≠ some alone.residuals ∧
      (solved.slot? 1).map Slot.residuals = (solved.slot? 0).map Slot.residuals := by
  decide +kernel

end LeastSquares
