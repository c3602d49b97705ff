import Mathlib.Algebra.GroupWithZero.Nat
import LeastSquares.Proofs.Budget
import LeastSquares.Proofs.Outcome

/-!
# The rounds of a solve

A solve evaluates its residuals once at the start. From then on it goes through rounds, each of
which takes a Jacobian, at one evaluation for each parameter, and makes trials from it. Only the
last trial of a round is accepted, and every round but the last one has such a trial. The budget is
looked at after a trial only, so that the Jacobian and the first trial of a round may overshoot it.
-/
namespace LeastSquares

variable {α : Type}

/-- What a round evaluates: every column of a Jacobian, then the given number of trials. -/
def roundPurposes (n trials : Nat) : List Purpose :=
  (List.range n).map .column ++ List.replicate trials .trial

/-- What a solve evaluates in rounds with the given numbers of trials. -/
def itinerary (n : Nat) (rounds : List Nat) : List Purpose :=
  .start :: rounds.flatMap (roundPurposes n)

/-- What the recorded evaluations were made for, first to last. -/
def purposes {m n : Nat} (calls : Calls α m n) : List Purpose :=
  calls.toList.map (·.purpose)

theorem purposes_push {m n : Nat} (calls : Calls α m n) (call : Call α m n) :
    purposes (calls.push call) = purposes calls ++ [call.purpose] := by
  simp [purposes]

theorem length_itinerary (n : Nat) (rounds : List Nat) :
    (itinerary n rounds).length = 1 + n * rounds.length + rounds.sum := by
  unfold itinerary
  induction rounds with
  | nil => rfl
  | cons trials rounds ih =>
    simp only [List.length_cons, List.flatMap_cons, List.length_append, roundPurposes,
      List.length_map, List.length_range, List.length_replicate, List.sum_cons,
      Nat.mul_succ] at ih ⊢
    omega

/-- A new round begins with its Jacobian. -/
theorem itinerary_begin (n : Nat) (rounds : List Nat) :
    itinerary n (rounds ++ [0]) = itinerary n rounds ++ (List.range n).map .column := by
  simp [itinerary, roundPurposes]

/-- A trial is added to the round at hand. -/
theorem itinerary_trial (n : Nat) (rounds : List Nat) (trials : Nat) :
    itinerary n (rounds ++ [trials + 1]) = itinerary n (rounds ++ [trials]) ++ [.trial] := by
  simp [itinerary, roundPurposes, List.replicate_succ']

variable [Scalar α]

namespace Differencing

variable {m n : Nat} {p : Problem α} {epsfcn : α} {residuals : Vector α m}

/-- An interrupted Jacobian took no more evaluations than a complete one. -/
theorem run_nfev_le (d : Differencing α m n) :
    (d.run p epsfcn residuals).nfev ≤ d.nfev + n := by
  refine foldl_invariant (fun k (done : Differencing α m n) => done.nfev ≤ d.nfev + k)
    (Nat.le_refl _) ?_
  intro j done before
  unfold column
  split
  · omega
  · dsimp only
    split
    · exact Nat.succ_le_succ before
    · exact Nat.succ_le_succ before

/-- A complete Jacobian has evaluated its columns in order. -/
theorem run_purposes {d : Differencing α m n}
    (complete : (d.run p epsfcn residuals).failure = none) :
    purposes (d.run p epsfcn residuals).calls =
      purposes d.calls ++ (List.range n).map .column := by
  refine complete_invariant
    (fun k done => purposes done.calls = purposes d.calls ++ (List.range k).map .column) (by simp)
    ?_ complete
  intro j done going success before
  rw [column_of_success going success]
  simp [purposes_push, before, List.range_succ, probe, Problem.call]

end Differencing

/-! ### What a solve has evaluated -/

namespace State

variable {p : Problem α}

/-- The evaluations recorded are those of rounds with the given numbers of trials, and no trial has
been accepted that was not made. -/
structure InRounds (s : State p) (rounds : List Nat) : Prop where
  purposes : purposes s.calls = itinerary p.parameterCount rounds
  trials : s.iterations ≤ rounds.sum

end State

/-- A linearization starts a round when every round so far has had a trial accepted; the round that
a trial belongs to has had none accepted yet. At the end, the last round has had one accepted just
when the last evaluation of all was made for it. -/
def Stage.InRounds {p : Problem α} : Stage p → Prop
  | linearize s => ∃ rounds, s.InRounds rounds ∧ rounds.length = s.iterations
  | attempt s => ∃ rounds trials, s.InRounds (rounds ++ [trials]) ∧ rounds.length = s.iterations
  | stopped info s => info.isAbort = false → ∃ rounds, s.InRounds rounds ∧
      rounds.length = if (acceptedNumbers s.events).getLast? = some s.nfev then s.iterations
        else s.iterations + 1

namespace State

variable {p : Problem α} {tall : p.parameterCount ≤ p.residualCount} {c : Config α}

/-- The end of a solve adds nothing to its rounds. -/
theorem finish_inRounds {s : State p} {rounds : List Nat} (h : s.InRounds rounds)
    (length : rounds.length = if (acceptedNumbers s.events).getLast? = some s.nfev
      then s.iterations else s.iterations + 1) (info : Termination) : (s.finish info).InRounds := by
  intro _
  refine ⟨rounds, ⟨h.purposes, h.trials⟩, ?_⟩
  rw [acceptedNumbers_finished]
  exact length

theorem linearize_inRounds (nonempty : 0 < p.parameterCount) {s : State p} (recorded : s.Recorded)
    (h : (Stage.linearize s).InRounds) : (s.linearize tall c).InRounds := by
  obtain ⟨rounds, ⟨purposes, trials⟩, length⟩ := h
  rcases s.linearize_cases tall c with ⟨e, -, next⟩ | ⟨success, t, same, next⟩
  · rw [next]
    exact fun completed => by cases completed
  · have iterations : t.iterations = s.iterations := same.iterations
    -- The Jacobian begins a round without trials.
    have begun : t.InRounds (rounds ++ [0]) := by
      constructor
      · rw [same.calls, itinerary_begin, ← purposes]
        exact Differencing.run_purposes success
      · rw [iterations, List.sum_append]
        exact trials
    rcases next with next | next
    · rw [next]
      apply finish_inRounds begun
      -- Whatever was accepted last, the columns have been evaluated since.
      have spent : t.nfev = s.nfev + p.parameterCount :=
        same.nfev.trans (s.unfilled.run_nfev success)
      have events : t.events = s.events := same.events
      have since : (acceptedNumbers s.events).getLast? ≠ some (s.nfev + p.parameterCount) := by
        intro last
        have before := recorded.le_of_accepted last
        omega
      rw [events, spent, if_neg since, iterations, List.length_append, length]
      rfl
    · rw [next]
      exact ⟨rounds, 0, begun, length.trans iterations.symm⟩

theorem attempt_inRounds {s : State p} (recorded : s.Recorded)
    (h : (Stage.attempt s).InRounds) : (s.attempt tall c).InRounds := by
  obtain ⟨rounds, trials, ⟨purposes, made⟩, length⟩ := h
  cases failure : (s.proposed tall).evaluateTrial.2 with
  | some e =>
    rw [attempt_of_failure failure]
    exact fun completed => by cases completed
  | none =>
    rw [attempt_of_success failure]
    have iterations := tried_iterations tall s
    have accepted := tried_accepted tall s
    -- The trial is one more of the round at hand.
    have tried : (s.tried tall).InRounds (rounds ++ [trials + 1]) := by
      constructor
      · rw [itinerary_trial, ← purposes, tried_calls, ← (proposed_same tall s).calls]
        exact purposes_push ..
      · simp only [List.sum_append, List.sum_singleton] at made ⊢
        rw [iterations]
        split <;> omega
    cases good : (s.trialReduction tall).acceptable with
    | true =>
      simp only [good, if_true] at iterations accepted
      have length : (rounds ++ [trials + 1]).length = (s.tried tall).iterations := by
        simp [length, iterations]
      split
      · apply finish_inRounds tried
        rw [accepted, tried_nfev, List.getLast?_concat, if_pos rfl, length]
      · exact ⟨rounds ++ [trials + 1], tried, length⟩
    | false =>
      simp only [good, Bool.false_eq_true, if_false, List.append_nil, Nat.add_zero]
        at iterations accepted
      split
      · apply finish_inRounds tried
        -- The trial has been refused, and everything accepted was evaluated before it.
        have since : (acceptedNumbers s.events).getLast? ≠ some (s.nfev + 1) := by
          intro last
          have before := recorded.le_of_accepted last
          omega
        rw [accepted, tried_nfev, if_neg since, iterations, List.length_append, length]
        rfl
      · exact ⟨rounds, trials + 1, tried, length.trans iterations.symm⟩

theorem start_inRounds (c : Config α) (x : Vector α p.parameterCount)
    (residuals : Vector α p.residualCount) (diag : Vector α p.parameterCount)
    (buffers : Buffers α p.residualCount p.parameterCount) :
    (State.start c x residuals diag buffers).InRounds := by
  unfold start
  dsimp only
  split
  · exact fun completed => by cases completed
  · exact ⟨[], ⟨rfl, Nat.le_refl 0⟩, rfl⟩

end State

namespace Stage

variable {p : Problem α} {tall : p.parameterCount ≤ p.residualCount} {c : Config α}

theorem next_inRounds (nonempty : 0 < p.parameterCount) {stage : Stage p}
    (recorded : stage.Recorded) (h : stage.InRounds) : (stage.next tall c).InRounds := by
  cases stage with
  | linearize s => exact s.linearize_inRounds nonempty recorded h
  | attempt s => exact s.attempt_inRounds recorded h
  | stopped info s => exact h

theorem run_inRounds (nonempty : 0 < p.parameterCount) (steps : Nat) {stage : Stage p}
    (recorded : stage.Recorded) (h : stage.InRounds) : (stage.run tall c steps).InRounds := by
  -- The steps need the record, so both are carried along.
  have both : (stage.run tall c steps).Recorded ∧ (stage.run tall c steps).InRounds :=
    run_invariant (P := fun now => now.Recorded ∧ now.InRounds)
      (fun _ now => ⟨next_recorded now.1, next_inRounds nonempty now.1 now.2⟩) steps ⟨recorded, h⟩
  exact both.2

end Stage

/-! ### How far a solve may overshoot its budget -/

/-- Before a Jacobian there is something left of the budget, or of two evaluations if that is more.
A trial follows it whatever it cost, and only the tests after the trial can call the budget
spent. -/
def Stage.Within {p : Problem α} (budget : Nat) : Stage p → Prop
  | linearize s => s.nfev < max budget 2
  | attempt s => s.nfev < max budget 2 + p.parameterCount
  | stopped info s =>
    s.nfev ≤ max budget 2 + p.parameterCount ∧ (info = .maxfevReached → budget ≤ s.nfev)

namespace Stage

variable {p : Problem α} {tall : p.parameterCount ≤ p.residualCount} {c : Config α}

theorem next_within {stage : Stage p} (within : stage.Within (c.budget p.parameterCount)) :
    (stage.next tall c).Within (c.budget p.parameterCount) := by
  cases stage with
  | linearize s =>
    rw [Within] at within
    rcases s.linearize_cases tall c with ⟨e, -, next⟩ | ⟨success, t, same, next⟩
    · rw [Stage.next, next]
      have spent : (s.differentiate c).nfev ≤ s.nfev + p.parameterCount := s.unfilled.run_nfev_le
      exact ⟨by simp only [State.interrupted]; omega, fun other => by cases other⟩
    · have spent : t.nfev = s.nfev + p.parameterCount :=
        same.nfev.trans (s.unfilled.run_nfev success)
      rcases next with next | next
      · rw [Stage.next, next]
        exact ⟨by simp only; omega, fun other => by cases other⟩
      · rw [Stage.next, next, Within]
        omega
  | attempt s =>
    rw [Within] at within
    cases failure : (s.proposed tall).evaluateTrial.2 with
    | some e =>
      have spent : (s.proposed tall).evaluateTrial.1.nfev = s.nfev + 1 :=
        congrArg (· + 1) (s.proposed_same tall).nfev
      rw [Stage.next, State.attempt_of_failure failure]
      exact ⟨by simp only [State.stranded]; omega, fun other => by cases other⟩
    | none =>
      have spent := s.tried_nfev tall
      rw [Stage.next, State.attempt_of_success failure]
      split
      next info ends =>
        refine ⟨by simp only; omega, ?_⟩
        rintro rfl
        exact State.budget_le_of_verdict ends
      next going =>
        -- A solve that goes on has something left, whatever it goes on with.
        have left := State.lt_budget_of_no_verdict going
        split
        · rw [Within]
          omega
        · rw [Within]
          omega
  | stopped info s => exact within

theorem run_within (steps : Nat) {stage : Stage p}
    (within : stage.Within (c.budget p.parameterCount)) :
    (stage.run tall c steps).Within (c.budget p.parameterCount) :=
  run_invariant (fun _ now => next_within now) steps within

theorem start_within (budget : Nat) (c : Config α) (x : Vector α p.parameterCount)
    (residuals : Vector α p.residualCount) (diag : Vector α p.parameterCount)
    (buffers : Buffers α p.residualCount p.parameterCount) :
    (State.start c x residuals diag buffers).Within budget := by
  unfold State.start
  dsimp only
  split
  · exact ⟨by simp only [State.opened]; omega, fun other => by cases other⟩
  · simp only [Within, State.opened]
    omega

end Stage

/-- An accepted solve stops by itself, having made as many calls as it reports, at points and with
buffers of the lengths it was given. It overshoots a budget of at least two by one Jacobian at most.
If no evaluation failed, the calls fall into the first one and rounds, each of a Jacobian and some
trials. There are as many rounds as steps taken if the very last call was made for a trial that was
accepted, and one more otherwise. A solve that reports its budget as spent has spent it. -/
theorem solve_rounds {p : Problem α} {c : Config α} {x residuals diag : Array α} {w : Workspace α}
    (h : Accepted p c x residuals diag w) :
    let run := solve p c x residuals diag w
    let n := x.size
    let budget := c.budget n
    (∃ info s, (State.start c h.given.x h.given.residuals h.given.diag h.given.buffers).run h.tall c
        (stepBound budget) = .stopped info s ∧ run = .ended info s) ∧
    run.outcome.nfev = run.calls.size ∧
    run.outcome.nfev ≤ max budget 2 + n ∧
    (∀ (k : Nat) (call : Call α p.residualCount p.parameterCount), run.calls[k]? = some call →
      call.point.toArray.size = n ∧ ∃ buffer : Vector α p.residualCount,
        buffer.toArray.size = residuals.size ∧
        call.response = p.eval (k + 1) call.point buffer) ∧
    (run.outcome.info.isAbort = false → ∃ rounds : List Nat,
      purposes run.calls = itinerary n rounds ∧
      run.outcome.nfev = 1 + n * rounds.length + rounds.sum ∧
      run.outcome.iterations ≤ rounds.sum ∧
      rounds.length =
        if (acceptedNumbers run.events).getLast? = some run.outcome.nfev
          then run.outcome.iterations
          else run.outcome.iterations + 1) ∧
    (run.outcome.info = .maxfevReached → budget ≤ run.outcome.nfev) := by
  intro run n budget
  obtain ⟨info, s, stopped, ended⟩ := solve_stops h
  have start := State.start_recorded c h.given.x h.given.residuals h.given.diag h.given.buffers
  have recorded : (Stage.stopped info s).Recorded := stopped ▸ Stage.run_recorded _ start
  have inRounds : (Stage.stopped info s).InRounds :=
    stopped ▸ Stage.run_inRounds (Config.pos_of_validate h.valid) _ start (State.start_inRounds ..)
  have within : (Stage.stopped info s).Within (c.budget p.parameterCount) :=
    stopped ▸ Stage.run_within _ (Stage.start_within ..)
  obtain ⟨counted, genuine⟩ := recorded.counted
  have size : n = p.parameterCount := h.size_x
  have spent : budget = c.budget p.parameterCount := congrArg c.budget size
  rw [show run = .ended info s from ended, spent, size]
  refine ⟨⟨info, s, stopped, rfl⟩, counted, within.1, ?_, ?_, within.2⟩
  · intro k call found
    obtain ⟨buffer, response⟩ := genuine k call found
    refine ⟨call.point.size_toArray, buffer, ?_, response⟩
    exact buffer.size_toArray.trans h.size_residuals.symm
  · intro completed
    obtain ⟨rounds, ⟨made, trials⟩, length⟩ := inRounds completed
    refine ⟨rounds, made, ?_, trials, length⟩
    -- As many evaluations have been counted as there are in the rounds.
    have total := congrArg List.length made
    rw [length_itinerary, purposes, List.length_map, Array.length_toList, ← counted] at total
    exact total

/-- One round with a trial that is refused and one that is accepted and ends the solve, at the very
evaluation that spends its budget. -/
theorem solve_rounds_rootTwo :
    (solveRootTwo (limited 4)).outcome.info = .maxfevReached ∧
      4 ≤ (solveRootTwo (limited 4)).outcome.nfev ∧
      (solveRootTwo (limited 4)).outcome.nfev = (solveRootTwo (limited 4)).calls.size ∧
      ∃ rounds, purposes (solveRootTwo (limited 4)).calls = itinerary 1 rounds ∧
        rounds.length = 1 ∧ rounds.sum = 2 := by
  have stops : (solveRootTwo (limited 4)).outcome.info = .maxfevReached ∧
      (solveRootTwo (limited 4)).outcome.nfev = 4 ∧
      (solveRootTwo (limited 4)).outcome.iterations = 1 ∧
      (acceptedNumbers (solveRootTwo (limited 4)).events).getLast? = some 4 := by
    decide +kernel
  obtain ⟨info, nfev, iterations, last⟩ := stops
  obtain ⟨-, counted, -, -, rounds, spent⟩ := solve_rounds
    (accepted_of_info_ne fun refused => by cases info.symm.trans refused)
  obtain ⟨rounds, made, total, -, length⟩ := rounds (congrArg Termination.isAbort info)
  change (solveRootTwo (limited 4)).outcome.nfev = 1 + 1 * rounds.length + rounds.sum at total
  change rounds.length =
    if (acceptedNumbers (solveRootTwo (limited 4)).events).getLast? =
        some (solveRootTwo (limited 4)).outcome.nfev
      then (solveRootTwo (limited 4)).outcome.iterations
      else (solveRootTwo (limited 4)).outcome.iterations + 1 at length
  rw [nfev, last, if_pos rfl, iterations] at length
  refine ⟨info, spent info, counted, rounds, made, length, ?_⟩
  omega

end LeastSquares
