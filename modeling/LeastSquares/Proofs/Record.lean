import LeastSquares.Proofs.Steps
import LeastSquares.Proofs.Differences

/-!
# The record of a solve

A solve records every residual evaluation with the point it was made at and the buffer it left, and
every trial with the ratio it was judged by. Each state agrees with its own record: the iterate is
the point of the last accepted trial, or of the first evaluation, and its residuals are what that
evaluation left. An evaluation that fails is the last one recorded.
-/
namespace LeastSquares

variable {α : Type} {m n : Nat}

/-- The number of the evaluation a trial was made with. -/
def Event.tried? : Event α → Option Nat
  | tried nfev .. => some nfev
  | _ => none

/-- The number of the evaluation an accepted trial was made with. -/
def Event.accepted? [Scalar α] : Event α → Option Nat
  | tried nfev _ ratio _ => if Reduction.acceptRatio ≤ ratio then some nfev else none
  | _ => none

/-- The trials that were judged, by the numbers of their evaluations. -/
def triedNumbers (events : Array (Event α)) : List Nat :=
  events.toList.filterMap Event.tried?

/-- The trials that were accepted, by the numbers of their evaluations. -/
def acceptedNumbers [Scalar α] (events : Array (Event α)) : List Nat :=
  events.toList.filterMap Event.accepted?

/-- The call that the iterate comes from: the one made for the last accepted trial, or the very
first one if no trial was accepted. -/
def IsCurrent [Scalar α] (events : Array (Event α)) (calls : Calls α m n) (i : Nat)
    (call : Call α m n) : Prop :=
  calls[i]? = some call ∧
    match (acceptedNumbers events).getLast? with
    | none => i = 0 ∧ call.purpose = .start
    | some number => i + 1 = number ∧ call.purpose = .trial

/-- The points that were evaluated, first to last. -/
def points (calls : Calls α m n) : List (Vector α n) :=
  calls.toList.map (·.point)

/-- The numbers of the evaluations made for a trial. -/
def trialNumbers (calls : Calls α m n) : List Nat :=
  (calls.toList.zipIdx 1).filterMap fun (call, number) =>
    if call.purpose = .trial then some number else none

/-- Every response in the record is the one the problem gives to a call of that number. -/
def Genuine (p : Problem α) (calls : Calls α m n) : Prop :=
  ∀ (i : Nat) (call : Call α m n), calls[i]? = some call →
    ∃ buffer, call.response = p.eval (i + 1) call.point buffer

def Succeeded (calls : Calls α m n) : Prop :=
  ∀ call ∈ calls, call.response.failure = none

/-- The last evaluation, and only that, failed: with the error `e`, at `point`, leaving `buffer`. -/
def FailedLast (calls : Calls α m n) (e : Error α) (point : Vector α n) (buffer : Vector α m) :
    Prop :=
  ∃ (earlier : Calls α m n) (call : Call α m n), calls = earlier.push call ∧ Succeeded earlier ∧
    call.response.failure = some e ∧ call.point = point ∧ call.response.buffer = buffer

/-- Every call recorded in `before` has the same place in `after`. -/
def Keeps (before after : Calls α m n) : Prop :=
  ∀ (i : Nat) (call : Call α m n), before[i]? = some call → after[i]? = some call

theorem Event.accepted?_tried [Scalar α] (nfev : Nat) (region : Region α) (r : Reduction α)
    (trialNorm : α) : (tried nfev region r.ratio trialNorm).accepted? =
      if r.acceptable then some nfev else none := by
  simp only [accepted?, Reduction.acceptable, decide_eq_true_eq]

theorem triedNumbers_push (events : Array (Event α)) (e : Event α) :
    triedNumbers (events.push e) = triedNumbers events ++ e.tried?.toList := by
  simp only [triedNumbers, Array.toList_push, List.filterMap_append]
  cases h : e.tried? <;> simp [h]

theorem acceptedNumbers_push [Scalar α] (events : Array (Event α)) (e : Event α) :
    acceptedNumbers (events.push e) = acceptedNumbers events ++ e.accepted?.toList := by
  simp only [acceptedNumbers, Array.toList_push, List.filterMap_append]
  cases h : e.accepted? <;> simp [h]

/-- The end of a solve accepts nothing. -/
theorem acceptedNumbers_finished [Scalar α] (events : Array (Event α)) (o : Outcome α) :
    acceptedNumbers (events.push (.finished o)) = acceptedNumbers events := by
  simp [acceptedNumbers_push, Event.accepted?]

theorem acceptedNumbers_aborted [Scalar α] (events : Array (Event α)) (nfev : Nat) (e : Error α) :
    acceptedNumbers (events.push (.aborted nfev e)) = acceptedNumbers events := by
  simp [acceptedNumbers_push, Event.accepted?]

theorem points_push (calls : Calls α m n) (call : Call α m n) :
    points (calls.push call) = points calls ++ [call.point] := by
  simp [points]

theorem trialNumbers_push (calls : Calls α m n) (call : Call α m n) :
    trialNumbers (calls.push call) =
      trialNumbers calls ++ if call.purpose = .trial then [calls.size + 1] else [] := by
  simp only [trialNumbers, Array.toList_push, List.zipIdx_append, List.filterMap_append]
  by_cases trial : call.purpose = .trial <;> simp [trial, Nat.add_comm]

theorem Genuine.push {p : Problem α} {calls : Calls α m n} (h : Genuine p calls)
    (purpose : Purpose) (point : Vector α n) (buffer : Vector α m) :
    Genuine p (calls.push (p.call calls purpose point buffer)) := by
  intro i call found
  rw [Array.getElem?_push] at found
  split at found
  next last =>
    -- The number of a new call is one more than the number of calls before it.
    cases found
    exact ⟨buffer, by rw [last]; rfl⟩
  · exact h i call found

theorem Succeeded.push {calls : Calls α m n} (h : Succeeded calls) {call : Call α m n}
    (success : call.response.failure = none) : Succeeded (calls.push call) := by
  intro other member
  rcases Array.mem_push.mp member with old | rfl
  · exact h other old
  · exact success

theorem Keeps.refl (calls : Calls α m n) : Keeps calls calls :=
  fun _ _ found => found

theorem Keeps.trans {first second third : Calls α m n} (h : Keeps first second)
    (h' : Keeps second third) : Keeps first third :=
  fun i call found => h' i call (h i call found)

theorem Keeps.push (calls : Calls α m n) (last : Call α m n) : Keeps calls (calls.push last) := by
  intro i call found
  obtain ⟨bound, rfl⟩ := Array.getElem?_eq_some_iff.mp found
  rw [Array.getElem?_push_lt bound]

variable [Scalar α]

/-! ### Jacobians -/

namespace Differencing

theorem column_keeps {p : Problem α} {scale : α} {residuals : Vector α m} (j : Fin n)
    (d : Differencing α m n) : Keeps d.calls (d.column p scale residuals j).calls := by
  unfold column
  split
  · exact .refl _
  · dsimp only
    split <;> exact .push _ _

theorem run_keeps {p : Problem α} {epsfcn : α} {residuals : Vector α m} (d : Differencing α m n) :
    Keeps d.calls (d.run p epsfcn residuals).calls :=
  foldl_invariant (fun _ done => Keeps d.calls done.calls) (.refl _)
    fun j done kept => kept.trans (column_keeps j done)

/-- The first column is evaluated into the buffer the Jacobian was given. -/
theorem run_first {p : Problem α} {epsfcn : α} {residuals : Vector α m} {d : Differencing α m n}
    (intact : d.failure = none) (nonempty : 0 < n) :
    ∃ call, (d.run p epsfcn residuals).calls[d.calls.size]? = some call ∧
      call.response = p.eval (d.calls.size + 1) call.point d.buffer := by
  refine ⟨d.query p (differenceScale epsfcn) ⟨0, nonempty⟩, ?_, rfl⟩
  rcases d.run_swept_or_stranded p epsfcn residuals intact with swept | ⟨j, stranded⟩
  · exact swept.asked.first nonempty nonempty
  · exact stranded.asked.first (Nat.succ_pos j) nonempty

/-- What every successful column preserves holds of a complete Jacobian. -/
theorem complete_invariant {p : Problem α} {epsfcn : α} {residuals : Vector α m}
    {d : Differencing α m n} (P : Nat → Differencing α m n → Prop) (start : P 0 d)
    (step : ∀ (j : Fin n) (done : Differencing α m n), done.failure = none →
      (done.probe p (differenceScale epsfcn) j).response.failure = none → P j done →
        P (j + 1) (done.column p (differenceScale epsfcn) residuals j))
    (complete : (d.run p epsfcn residuals).failure = none) : P n (d.run p epsfcn residuals) := by
  refine foldl_invariant (fun k (done : Differencing α m n) => done.failure = none → P k done)
    (fun _ => start) ?_ complete
  intro j done before going
  cases failed : done.failure with
  | some e =>
    rw [column_of_failed (by rw [failed]; rfl), failed] at going
    cases going
  | none =>
    cases outcome : (done.probe p (differenceScale epsfcn) j).response.failure with
    | some e =>
      rw [column_of_failure failed outcome] at going
      cases going
    | none => exact step j done failed outcome (before failed)

/-- What a Jacobian taken at `x` after the calls `before` has recorded so far. -/
structure Recorded (p : Problem α) (x : Vector α n) (before : Calls α m n)
    (d : Differencing α m n) : Prop where
  nfev : d.nfev = d.calls.size
  genuine : Genuine p d.calls
  trials : trialNumbers d.calls = trialNumbers before
  succeeded : d.failure = none → d.x = x ∧ Succeeded d.calls
  failed : ∀ e, d.failure = some e → FailedLast d.calls e d.x d.buffer

theorem column_recorded {p : Problem α} {scale : α} {residuals : Vector α m} {x : Vector α n}
    {before : Calls α m n} (j : Fin n) {d : Differencing α m n} (h : d.Recorded p x before) :
    (d.column p scale residuals j).Recorded p x before := by
  have trials : trialNumbers (d.calls.push (d.probe p scale j)) = trialNumbers before := by
    simp [trialNumbers_push, h.trials, probe, Problem.call]
  unfold column
  split
  · exact h
  next going =>
    have intact : d.failure = none := by simpa using going
    obtain ⟨here, succeeded⟩ := h.succeeded intact
    dsimp only
    split
    next e failure =>
      exact {
        nfev := by simp [h.nfev]
        genuine := h.genuine.push _ _ _
        trials
        -- The point and the buffer are left as the failing evaluation saw and left them.
        succeeded := fun none => by cases none
        failed := fun e' same => by
          cases same
          exact ⟨d.calls, _, rfl, succeeded, failure, rfl, rfl⟩ }
    next failure =>
      exact {
        nfev := by simp [h.nfev]
        genuine := h.genuine.push _ _ _
        trials
        -- The coordinate that was moved gets back the very value it had.
        succeeded := fun _ => ⟨(overwriteAt_restore ..).trans here, succeeded.push failure⟩
        failed := fun e some => by simp [intact] at some }

theorem run_recorded {p : Problem α} {epsfcn : α} {residuals : Vector α m}
    {d : Differencing α m n} (nfev : d.nfev = d.calls.size) (genuine : Genuine p d.calls)
    (intact : d.failure = none) (succeeded : Succeeded d.calls) :
    (d.run p epsfcn residuals).Recorded p d.x d.calls := by
  apply foldl_invariant fun _ done => Differencing.Recorded p d.x d.calls done
  · exact {
      nfev
      genuine
      trials := rfl
      succeeded := fun _ => ⟨rfl, succeeded⟩
      failed := fun e some => by simp [intact] at some }
  · exact fun j done h => column_recorded j h

end Differencing

/-! ### States -/

namespace State

variable {p : Problem α}

/-- The state agrees with its record, in which no evaluation has failed. -/
structure Recorded (s : State p) : Prop where
  nfev : s.nfev = s.calls.size
  genuine : Genuine p s.calls
  iterations : s.iterations = (acceptedNumbers s.events).length
  trials : triedNumbers s.events = trialNumbers s.calls
  succeeded : Succeeded s.calls
  fnorm : s.fnorm = norm s.residuals.toList
  current : ∃ i call, IsCurrent s.events s.calls i call ∧ call.point = s.x ∧
    call.response.buffer = s.residuals

/-- The state agrees with its record, in which the last evaluation failed. -/
structure Interrupted (info : Termination) (s : State p) : Prop where
  nfev : s.nfev = s.calls.size
  genuine : Genuine p s.calls
  iterations : s.iterations = (acceptedNumbers s.events).length
  fnorm : s.fnorm = norm s.residuals.toList
  failed : ∃ e, info = .userAbort e.abortStatus ∧ FailedLast s.calls e s.x s.residuals

end State

/-- A stage agrees with its record, whichever way the solve goes on from it. -/
def Stage.Recorded {p : Problem α} : Stage p → Prop
  | linearize s => s.Recorded
  | attempt s => s.Recorded
  | stopped info s => if info.isAbort then s.Interrupted info else s.Recorded

namespace State

variable {p : Problem α}

/-- Stopping because of a failed evaluation leaves the norm of what it left behind. -/
theorem abort_recorded {s : State p} {e : Error α} (nfev : s.nfev = s.calls.size)
    (genuine : Genuine p s.calls)
    (iterations : s.iterations = (acceptedNumbers s.events).length)
    (failed : FailedLast s.calls e s.x s.residuals) : (s.abort e).Recorded := by
  change State.Interrupted _ _
  exact {
    nfev
    genuine
    iterations := iterations.trans (congrArg List.length (acceptedNumbers_aborted ..).symm)
    fnorm := rfl
    failed := ⟨e, rfl, failed⟩ }

theorem finish_recorded {s : State p} (h : s.Recorded) {info : Termination}
    (ordinary : info.isAbort = false) : (s.finish info).Recorded := by
  have quiet := acceptedNumbers_finished s.events (s.outcome info)
  simp only [finish, Stage.Recorded, ordinary]
  exact {
    nfev := h.nfev
    genuine := h.genuine
    iterations := by rw [quiet]; exact h.iterations
    trials := by simp [triedNumbers_push, Event.tried?, h.trials]
    succeeded := h.succeeded
    fnorm := h.fnorm
    current := by simpa only [IsCurrent, quiet] using h.current }

theorem start_recorded (c : Config α) (x : Vector α p.parameterCount)
    (residuals : Vector α p.residualCount) (diag : Vector α p.parameterCount)
    (buffers : Buffers α p.residualCount p.parameterCount) :
    (State.start c x residuals diag buffers).Recorded := by
  have none : Genuine p (#[] : Calls α p.residualCount p.parameterCount) := by
    intro i call found
    simp at found
  have first := none.push .start x residuals
  unfold start
  dsimp only
  split
  next e failure =>
    exact abort_recorded rfl first rfl ⟨#[], _, rfl, by simp [Succeeded], failure, rfl, rfl⟩
  next failure =>
    exact {
      nfev := rfl
      genuine := first
      iterations := rfl
      trials := rfl
      succeeded := by simpa [Succeeded, opened] using failure
      fnorm := rfl
      current := ⟨0, _, ⟨rfl, rfl, rfl⟩, rfl, rfl⟩ }

/-- Two states with the same record, iterate and counts. -/
structure SameRecord (s t : State p) : Prop where
  x : t.x = s.x
  residuals : t.residuals = s.residuals
  fnorm : t.fnorm = s.fnorm
  nfev : t.nfev = s.nfev
  iterations : t.iterations = s.iterations
  calls : t.calls = s.calls
  events : t.events = s.events

theorem SameRecord.trans {α : Type} {p : Problem α} {s t u : State p} (h : SameRecord s t)
    (h' : SameRecord t u) : SameRecord s u where
  x := h'.x.trans h.x
  residuals := h'.residuals.trans h.residuals
  fnorm := h'.fnorm.trans h.fnorm
  nfev := h'.nfev.trans h.nfev
  iterations := h'.iterations.trans h.iterations
  calls := h'.calls.trans h.calls
  events := h'.events.trans h.events

theorem Recorded.of_same {s t : State p} (h : s.Recorded) (same : SameRecord s t) :
    t.Recorded where
  nfev := by rw [same.nfev, same.calls]; exact h.nfev
  genuine := by rw [same.calls]; exact h.genuine
  iterations := by rw [same.iterations, same.events]; exact h.iterations
  trials := by rw [same.events, same.calls]; exact h.trials
  succeeded := by rw [same.calls]; exact h.succeeded
  fnorm := by rw [same.fnorm, same.residuals]; exact h.fnorm
  current := by rw [same.events, same.calls, same.x, same.residuals]; exact h.current

/-- What was accepted last has been evaluated before. -/
theorem Recorded.le_of_accepted {s : State p} (h : s.Recorded) {number : Nat}
    (last : (acceptedNumbers s.events).getLast? = some number) : number ≤ s.nfev := by
  obtain ⟨i, call, ⟨found, kind⟩, -, -⟩ := h.current
  rw [last] at kind
  rw [h.nfev, ← kind.1]
  exact (Array.getElem?_eq_some_iff.mp found).1

/-! ### Linearizing -/

theorem differentiate_first (c : Config α) (s : State p) (nonempty : 0 < p.parameterCount) :
    ∃ call, (s.differentiate c).calls[s.calls.size]? = some call ∧
      call.response = p.eval (s.calls.size + 1) call.point s.buffers.trial :=
  s.unfilled.run_first rfl nonempty

theorem settle_same (c : Config α) (norms : Vector α p.parameterCount) (s : State p) :
    SameRecord s (s.settle c norms) := by
  unfold settle
  split <;> exact ⟨rfl, rfl, rfl, rfl, rfl, rfl, rfl⟩

theorem tested_same (tall : p.parameterCount ≤ p.residualCount) (c : Config α)
    (norms : Vector α p.parameterCount) (s : State p) : SameRecord s (s.tested tall c norms) :=
  { settle_same c norms s with }

/-- A linearization aborts or, with a complete Jacobian on record, converges or leads to a trial. -/
theorem linearize_cases (tall : p.parameterCount ≤ p.residualCount) (c : Config α) (s : State p) :
    (∃ e, (s.differentiate c).failure = some e ∧
      s.linearize tall c = (s.interrupted (s.differentiate c)).abort e) ∨
    (s.differentiate c).failure = none ∧
      ∃ t : State p, SameRecord (s.factorize tall (s.differentiate c)).1 t ∧
        (s.linearize tall c = t.finish .gtolReached ∨ s.linearize tall c = .attempt t) := by
  cases failure : (s.differentiate c).failure with
  | some e => exact .inl ⟨e, rfl, linearize_of_failure failure⟩
  | none =>
    have same := tested_same tall c (s.factorize tall (s.differentiate c)).2
      (s.factorize tall (s.differentiate c)).1
    right
    rw [linearize_of_success failure]
    by_cases orthogonal : ((s.factorize tall (s.differentiate c)).1.tested tall c
        (s.factorize tall (s.differentiate c)).2).gnorm ≤ c.gtol
    · exact ⟨rfl, _, same, .inl (testGradient_of_le orthogonal)⟩
    · refine ⟨rfl, _, ?_, .inr (testGradient_of_not_le orthogonal)⟩
      exact same.trans ⟨rfl, rfl, rfl, rfl, rfl, rfl, rfl⟩

theorem linearize_recorded {tall : p.parameterCount ≤ p.residualCount} {c : Config α}
    {s : State p} (h : s.Recorded) : (s.linearize tall c).Recorded := by
  have taken : (s.differentiate c).Recorded p s.x s.calls :=
    s.unfilled.run_recorded h.nfev h.genuine rfl h.succeeded
  rcases s.linearize_cases tall c with ⟨e, failure, next⟩ | ⟨success, t, same, next⟩
  · rw [next]
    exact abort_recorded taken.nfev taken.genuine h.iterations (taken.failed e failure)
  · -- All coordinates are back where they were, so the iterate still is the point of its call.
    obtain ⟨here, succeeded⟩ := taken.succeeded success
    obtain ⟨i, call, ⟨found, kind⟩, point, buffer⟩ := h.current
    have factored : (s.factorize tall (s.differentiate c)).1.Recorded := {
      nfev := taken.nfev
      genuine := taken.genuine
      iterations := h.iterations
      trials := h.trials.trans taken.trials.symm
      succeeded
      fnorm := h.fnorm
      current := ⟨i, call, ⟨s.unfilled.run_keeps i call found, kind⟩, point.trans here.symm,
        buffer⟩ }
    rcases next with next | next
    · rw [next]
      exact finish_recorded (factored.of_same same) rfl
    · rw [next]
      exact factored.of_same same

/-- A linearization makes the calls of its Jacobian and no others. -/
theorem linearize_calls (tall : p.parameterCount ≤ p.residualCount) (c : Config α) (s : State p) :
    (s.linearize tall c).state.calls = (s.differentiate c).calls := by
  rcases s.linearize_cases tall c with ⟨e, failure, next⟩ | ⟨success, t, same, next | next⟩
  · rw [next]
    rfl
  · rw [next]
    exact same.calls
  · rw [next]
    exact same.calls

/-! ### Trying a step -/

theorem searchStep_same (tall : p.parameterCount ≤ p.residualCount) (s : State p) :
    SameRecord s (s.searchStep tall) :=
  ⟨rfl, rfl, rfl, rfl, rfl, rfl, rfl⟩

theorem placeStep_same (s : State p) : SameRecord s s.placeStep :=
  ⟨rfl, rfl, rfl, rfl, rfl, rfl, rfl⟩

theorem capRegion_same (s : State p) : SameRecord s s.capRegion := by
  unfold capRegion
  split <;> exact ⟨rfl, rfl, rfl, rfl, rfl, rfl, rfl⟩

theorem proposed_same (tall : p.parameterCount ≤ p.residualCount) (s : State p) :
    SameRecord s (s.proposed tall) :=
  ((searchStep_same tall s).trans (placeStep_same _)).trans (capRegion_same _)

/-- The state agrees with its record but for a last, successful trial, which has not been judged. -/
structure Evaluated (s : State p) : Prop where
  nfev : s.nfev = s.calls.size
  genuine : Genuine p s.calls
  iterations : s.iterations = (acceptedNumbers s.events).length
  trials : triedNumbers s.events ++ [s.nfev] = trialNumbers s.calls
  succeeded : Succeeded s.calls
  fnorm : s.fnorm = norm s.residuals.toList
  current : ∃ i call, IsCurrent s.events s.calls i call ∧ call.point = s.x ∧
    call.response.buffer = s.residuals
  trial : ∃ i call, i + 1 = s.nfev ∧ call.purpose = .trial ∧ s.calls[i]? = some call ∧
    call.point = s.buffers.point ∧ call.response.buffer = s.buffers.trial

theorem evaluateTrial_evaluated {s : State p} (h : s.Recorded)
    (success : s.evaluateTrial.2 = none) : s.evaluateTrial.1.Evaluated := by
  obtain ⟨i, call, ⟨found, kind⟩, point, buffer⟩ := h.current
  exact {
    nfev := by simp [evaluateTrial, h.nfev]
    genuine := h.genuine.push _ _ _
    iterations := h.iterations
    trials := by simp [evaluateTrial, trialNumbers_push, h.trials, h.nfev, Problem.call]
    succeeded := h.succeeded.push success
    fnorm := h.fnorm
    current := ⟨i, call, ⟨Keeps.push _ _ i call found, kind⟩, point, buffer⟩
    trial := ⟨s.calls.size, _, by simp [evaluateTrial, h.nfev], rfl, Array.getElem?_push_size, rfl,
      rfl⟩ }

theorem evaluateTrial_stranded {s : State p} (h : s.Recorded) {e : Error α}
    (failure : s.evaluateTrial.2 = some e) : (s.evaluateTrial.1.stranded.abort e).Recorded := by
  apply abort_recorded
  · simp [evaluateTrial, stranded, h.nfev]
  · exact h.genuine.push _ _ _
  · exact h.iterations
  · exact ⟨s.calls, _, rfl, h.succeeded, failure, rfl, rfl⟩

/-- Judging a trial adds it to the accepted ones just when its step is worth taking. -/
theorem judge_accepted (tall : p.parameterCount ≤ p.residualCount) (length : α) (s : State p) :
    acceptedNumbers (s.judge tall length).1.events =
      acceptedNumbers s.events ++
        if (s.judge tall length).2.acceptable then [s.nfev] else [] := by
  refine (acceptedNumbers_push ..).trans (congrArg (_ ++ ·) ?_)
  have verdict := Event.accepted?_tried s.nfev (s.judge tall length).1.region
    (s.judge tall length).2 (norm s.buffers.trial.toList)
  refine (congrArg Option.toList verdict).trans ?_
  split <;> rfl

/-- A trial that is refused leaves the iterate with the evaluation it came from; one that is taken
makes its own evaluation the one the iterate comes from. -/
theorem judged_recorded (tall : p.parameterCount ≤ p.residualCount) (length : α) {s : State p}
    (h : s.Evaluated) : (s.judged tall length).Recorded := by
  have accepted := judge_accepted tall length s
  have trials : triedNumbers (s.judge tall length).1.events = trialNumbers s.calls :=
    (triedNumbers_push ..).trans h.trials
  unfold judged
  split
  next good =>
    -- Point and residuals are copied from the buffers that the evaluation was made with.
    rw [if_pos good] at accepted
    obtain ⟨i, call, number, kind, found, point, buffer⟩ := h.trial
    have current : IsCurrent (s.judge tall length).1.events s.calls i call := by
      simp [IsCurrent, accepted, number, kind, found]
    have iterations : s.iterations + 1 =
        (acceptedNumbers (s.judge tall length).1.events).length := by
      simp [accepted, h.iterations]
    exact {
      nfev := h.nfev
      genuine := h.genuine
      iterations
      trials
      succeeded := h.succeeded
      fnorm := by simp only [accept, overwrite_get]
      current := ⟨i, call, current, point.trans (overwrite_get ..).symm,
        buffer.trans (overwrite_get ..).symm⟩ }
  next poor =>
    -- A refused trial has written to the scratch buffers only.
    rw [if_neg poor, List.append_nil] at accepted
    obtain ⟨i, call, current, point, buffer⟩ := h.current
    have kept : IsCurrent (s.judge tall length).1.events s.calls i call := by
      simpa only [IsCurrent, accepted] using current
    exact {
      nfev := h.nfev
      genuine := h.genuine
      iterations := h.iterations.trans (congrArg List.length accepted.symm)
      trials
      succeeded := h.succeeded
      fnorm := h.fnorm
      current := ⟨i, call, kept, point, buffer⟩ }

/-! The state a trial leads to, if its evaluation succeeds. -/

theorem tried_nfev (tall : p.parameterCount ≤ p.residualCount) (s : State p) :
    (s.tried tall).nfev = s.nfev + 1 :=
  (judged_nfev ..).trans (congrArg (· + 1) (proposed_same tall s).nfev)

theorem tried_calls (tall : p.parameterCount ≤ p.residualCount) (s : State p) :
    (s.tried tall).calls = (s.proposed tall).evaluateTrial.1.calls :=
  judged_calls ..

theorem tried_iterations (tall : p.parameterCount ≤ p.residualCount) (s : State p) :
    (s.tried tall).iterations =
      s.iterations + if (s.trialReduction tall).acceptable then 1 else 0 :=
  (judged_iterations ..).trans (congrArg (· + _) (proposed_same tall s).iterations)

theorem tried_fnorm_of_refused {tall : p.parameterCount ≤ p.residualCount} {s : State p}
    (poor : ¬ (s.trialReduction tall).acceptable) :
    (s.tried tall).fnorm = s.fnorm :=
  (congrArg State.fnorm (if_neg poor)).trans (proposed_same tall s).fnorm

theorem tried_accepted (tall : p.parameterCount ≤ p.residualCount) (s : State p) :
    acceptedNumbers (s.tried tall).events = acceptedNumbers s.events ++
      if (s.trialReduction tall).acceptable then [s.nfev + 1] else [] := by
  have same := proposed_same tall s
  have accepted := judge_accepted tall (s.searchStep tall).placeStep.stepLength
    (s.proposed tall).evaluateTrial.1
  rw [tried, judged_events, accepted]
  simp only [evaluateTrial, same.events, same.nfev]
  rfl

theorem tried_keeps (tall : p.parameterCount ≤ p.residualCount) (s : State p) :
    Keeps s.calls (s.tried tall).calls := by
  rw [tried_calls, ← (proposed_same tall s).calls]
  exact .push _ _

theorem tried_recorded {tall : p.parameterCount ≤ p.residualCount} {s : State p} (h : s.Recorded)
    (success : (s.proposed tall).evaluateTrial.2 = none) : (s.tried tall).Recorded :=
  judged_recorded tall _ (evaluateTrial_evaluated (h.of_same (proposed_same tall s)) success)

/-- Whatever follows a trial whose evaluation succeeds, it goes on from the state the trial leads
to. -/
theorem attempt_state_of_success {tall : p.parameterCount ≤ p.residualCount} {s : State p}
    (success : (s.proposed tall).evaluateTrial.2 = none) :
    (s.attempt tall c).state.region = (s.tried tall).region ∧
      (s.attempt tall c).state.iterations = (s.tried tall).iterations ∧
      (s.attempt tall c).state.calls = (s.tried tall).calls := by
  rw [attempt_of_success success]
  split
  · exact ⟨rfl, rfl, rfl⟩
  · split
    · exact ⟨rfl, rfl, rfl⟩
    · exact ⟨rfl, rfl, rfl⟩

/-- The record shows whether a trial has been refused: its evaluation succeeded, and it is not
counted as an iteration. -/
theorem attempt_refused_iff {tall : p.parameterCount ≤ p.residualCount} {s : State p} :
    ((∀ call ∈ (s.attempt tall c).state.calls.back?, call.response.failure = none) ∧
      (s.attempt tall c).state.iterations = s.iterations) ↔
    (s.proposed tall).evaluateTrial.2 = none ∧ ¬ (s.trialReduction tall).acceptable := by
  have last : (s.proposed tall).evaluateTrial.1.calls.back?.map (·.response.failure) =
      some (s.proposed tall).evaluateTrial.2 := congrArg _ Array.back?_push
  cases outcome : (s.proposed tall).evaluateTrial.2 with
  | some e =>
    refine iff_of_false (fun refused => ?_) fun refused => nomatch refused.1
    rw [attempt_of_failure outcome] at refused
    obtain ⟨call, recorded, failure⟩ := Option.map_eq_some_iff.mp last
    cases (failure.trans outcome).symm.trans (refused.1 call recorded)
  | none =>
    obtain ⟨-, iterations, calls⟩ := @attempt_state_of_success _ _ p c tall s outcome
    rw [iterations, calls, tried_calls, tried_iterations]
    obtain ⟨call, recorded, success⟩ := Option.map_eq_some_iff.mp last
    have answered : ∀ call ∈ (s.proposed tall).evaluateTrial.1.calls.back?,
        call.response.failure = none := by
      rw [recorded]
      rintro _ ⟨⟩
      exact success.trans outcome
    refine ⟨fun refused => ⟨rfl, fun good => ?_⟩, fun refused => ⟨answered, ?_⟩⟩
    · rw [if_pos good] at refused
      exact absurd refused.2 (Nat.succ_ne_self _)
    · rw [if_neg refused.2, Nat.add_zero]

theorem attempt_recorded {tall : p.parameterCount ≤ p.residualCount} {c : Config α}
    {s : State p} (h : s.Recorded) : (s.attempt tall c).Recorded := by
  cases failure : (s.proposed tall).evaluateTrial.2 with
  | some e =>
    rw [attempt_of_failure failure]
    exact evaluateTrial_stranded (h.of_same (proposed_same tall s)) failure
  | none =>
    have tried := tried_recorded h failure
    rw [attempt_of_success failure]
    split
    next info ends =>
      exact finish_recorded tried (Termination.isAbort_of_isVerdict (isVerdict_of_verdict ends))
    next =>
      -- The same state is handed on, whichever step comes next.
      split
      · exact tried
      · exact tried

/-- A trial makes one call and no others. -/
theorem attempt_calls (tall : p.parameterCount ≤ p.residualCount) (c : Config α) (s : State p) :
    (s.attempt tall c).state.calls = (s.proposed tall).evaluateTrial.1.calls := by
  cases failure : (s.proposed tall).evaluateTrial.2 with
  | some e =>
    rw [attempt_of_failure failure]
    rfl
  | none =>
    have tried := tried_calls tall s
    rw [attempt_of_success failure]
    split
    · exact tried
    · split
      · exact tried
      · exact tried

theorem attempt_keeps (tall : p.parameterCount ≤ p.residualCount) (c : Config α) (s : State p) :
    Keeps s.calls (s.attempt tall c).state.calls := by
  rw [attempt_calls, ← (proposed_same tall s).calls]
  exact .push _ _

end State

/-! ### Runs -/

namespace Stage

variable {p : Problem α}

theorem next_recorded {tall : p.parameterCount ≤ p.residualCount} {c : Config α} {stage : Stage p}
    (h : stage.Recorded) : (stage.next tall c).Recorded := by
  cases stage with
  | linearize s => exact State.linearize_recorded h
  | attempt s => exact State.attempt_recorded h
  | stopped info s => exact h

/-- However far a solve has got, its state agrees with its record. -/
theorem run_recorded {tall : p.parameterCount ≤ p.residualCount} {c : Config α} (steps : Nat)
    {stage : Stage p} (h : stage.Recorded) : (stage.run tall c steps).Recorded :=
  run_invariant (fun _ now => next_recorded now) steps h

/-- Whichever way a solve stopped, it has counted its calls. -/
theorem Recorded.counted {info : Termination} {s : State p} (h : (stopped info s).Recorded) :
    s.nfev = s.calls.size ∧ Genuine p s.calls := by
  rw [Stage.Recorded] at h
  split at h
  · exact ⟨h.nfev, h.genuine⟩
  · exact ⟨h.nfev, h.genuine⟩

theorem result_recorded {stage : Stage p} (h : stage.Recorded) :
    (stopped stage.result.1 stage.result.2).Recorded := by
  cases stage with
  | linearize s => exact h
  | attempt s => exact h
  | stopped info s => exact h

theorem result_state {α : Type} {p : Problem α} (stage : Stage p) :
    stage.result.2 = stage.state := by
  cases stage <;> rfl

theorem next_keeps (tall : p.parameterCount ≤ p.residualCount) (c : Config α) (stage : Stage p) :
    Keeps stage.state.calls (stage.next tall c).state.calls := by
  cases stage with
  | linearize s =>
    rw [next, State.linearize_calls]
    exact s.unfilled.run_keeps
  | attempt s => exact State.attempt_keeps tall c s
  | stopped info s => exact .refl _

/-- A solve never forgets a call. -/
theorem run_keeps (tall : p.parameterCount ≤ p.residualCount) (c : Config α) (steps : Nat)
    (stage : Stage p) : Keeps stage.state.calls (stage.run tall c steps).state.calls :=
  run_invariant (P := fun now => Keeps stage.state.calls now.state.calls)
    (fun now kept => kept.trans (next_keeps tall c now)) steps (.refl _)

end Stage

section

variable {p : Problem α} (tall : p.parameterCount ≤ p.residualCount) (c : Config α)
  (x : Vector α p.parameterCount) (residuals : Vector α p.residualCount)
  (diag : Vector α p.parameterCount) (buffers : Buffers α p.residualCount p.parameterCount)

theorem solveFrom_recorded :
    (Stage.stopped (solveFrom tall c x residuals diag buffers).1
      (solveFrom tall c x residuals diag buffers).2).Recorded :=
  Stage.result_recorded (Stage.run_recorded _ (State.start_recorded ..))

/-- The second evaluation of a solve is the first of its first Jacobian, and is made into whatever
the buffer for trials held. -/
theorem solveFrom_second (nonempty : 0 < p.parameterCount)
    {call : Call α p.residualCount p.parameterCount}
    (found : (solveFrom tall c x residuals diag buffers).2.calls[1]? = some call) :
    call.response = p.eval 2 call.point buffers.trial := by
  have ended : ((State.start c x residuals diag buffers).run tall c
      (stepBound (c.budget p.parameterCount))).state.calls[1]? = some call := by
    rwa [solveFrom, Stage.result_state] at found
  unfold State.start at ended
  dsimp only at ended
  split at ended
  · cases ended
  next success =>
    -- The first Jacobian makes the call right after the start, and no later step removes it.
    obtain ⟨first, known, response⟩ :=
      (State.opened c diag buffers (p.call #[] .start x residuals)).differentiate_first c nonempty
    rw [← State.linearize_calls tall] at known
    have kept := Stage.run_keeps tall c (2 * c.budget p.parameterCount) _ 1 first known
    have same : call = first := Option.some.inj (ended.symm.trans kept)
    rw [same]
    exact response

end

end LeastSquares
