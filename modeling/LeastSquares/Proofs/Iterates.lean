import Mathlib.Data.List.Basic
import LeastSquares.Proofs.Record

/-!
# Iterates

The record of a solve tells the points it has visited: where it started, and where each of the steps
taken since has led. A linearization visits no new point, a trial at most the one it tries.
-/
namespace LeastSquares

variable {α : Type} {m n : Nat}

theorem getElem?_points (calls : Calls α m n) (i : Nat) :
    (points calls)[i]? = calls[i]?.map (·.point) := by
  simp [points]

theorem le_size_of_mem_trialNumbers {calls : Calls α m n} {number : Nat}
    (member : number ∈ trialNumbers calls) : number ≤ calls.size := by
  obtain ⟨⟨call, place⟩, mem, found⟩ := List.mem_filterMap.mp member
  dsimp only at found
  split at found
  · cases found
    have bound := List.snd_lt_add_of_mem_zipIdx mem
    rw [Array.length_toList] at bound
    omega
  · cases found

variable [Scalar α]

/-- The iterates of a solve: the point of the first evaluation and those of the trials accepted. -/
def iterates (events : Array (Event α)) (calls : Calls α m n) : List (Vector α n) :=
  (1 :: acceptedNumbers events).filterMap fun number => (points calls)[number - 1]?

theorem iterates_eq_of_keeps {events : Array (Event α)} {calls calls' : Calls α m n}
    (known : ∀ number ∈ 1 :: acceptedNumbers events, number - 1 < calls.size)
    (kept : Keeps calls calls') : iterates events calls' = iterates events calls := by
  apply List.filterMap_congr
  intro number member
  obtain ⟨call, found⟩ : ∃ call, calls[number - 1]? = some call :=
    ⟨_, Array.getElem?_eq_getElem (known number member)⟩
  rw [getElem?_points, getElem?_points, found, kept _ _ found]

theorem tried?_of_accepted? {e : Event α} {number : Nat} (accepted : e.accepted? = some number) :
    e.tried? = some number := by
  cases e with
  | tried nfev region ratio trialNorm =>
    simp only [Event.accepted?] at accepted
    split at accepted
    · exact accepted
    · cases accepted
  | _ => cases accepted

theorem mem_triedNumbers {events : Array (Event α)} {number : Nat}
    (member : number ∈ acceptedNumbers events) : number ∈ triedNumbers events := by
  obtain ⟨e, mem, accepted⟩ := List.mem_filterMap.mp member
  exact List.mem_filterMap.mpr ⟨e, mem, tried?_of_accepted? accepted⟩

namespace State

variable {p : Problem α} {s : State p}

/-- The evaluations that iterates come from are on record. -/
theorem Recorded.known (h : s.Recorded) (number : Nat)
    (member : number ∈ 1 :: acceptedNumbers s.events) : number - 1 < s.calls.size := by
  obtain ⟨i, call, ⟨found, -⟩, -⟩ := h.current
  obtain ⟨inside, -⟩ := Array.getElem?_eq_some_iff.mp found
  rcases List.mem_cons.mp member with rfl | accepted
  · omega
  · have bound := le_size_of_mem_trialNumbers (h.trials ▸ mem_triedNumbers accepted)
    omega

/-- The last of the iterates is the one the solve is at. -/
theorem Recorded.getLast?_iterates (h : s.Recorded) :
    (iterates s.events s.calls).getLast? = some s.x := by
  obtain ⟨i, call, ⟨found, kind⟩, point, -⟩ := h.current
  have here : (points s.calls)[i]? = some s.x := by
    rw [getElem?_points, found, ← point]
    rfl
  cases last : (acceptedNumbers s.events).getLast? with
  | none =>
    rw [last] at kind
    obtain ⟨rfl, -⟩ := kind
    rw [List.getLast?_eq_none_iff] at last
    simp [iterates, last, here]
  | some number =>
    rw [last] at kind
    obtain ⟨rfl, -⟩ := kind
    obtain ⟨earlier, split⟩ := List.getLast?_eq_some_iff.mp last
    rw [iterates, split, ← List.cons_append, List.filterMap_append]
    simp [here]

/-! ### Steps -/

variable {tall : p.parameterCount ≤ p.residualCount} {c : Config α}

theorem linearize_iterates (h : s.Recorded) :
    iterates (s.linearize tall c).state.events (s.linearize tall c).state.calls =
      iterates s.events s.calls := by
  have same : iterates s.events (s.linearize tall c).state.calls = iterates s.events s.calls := by
    rw [linearize_calls]
    exact iterates_eq_of_keeps h.known s.unfilled.run_keeps
  have quiet : acceptedNumbers (s.linearize tall c).state.events = acceptedNumbers s.events := by
    rcases s.linearize_cases tall c with ⟨e, -, next⟩ | ⟨-, t, unchanged, next | next⟩
    · rw [next]
      exact acceptedNumbers_aborted ..
    · rw [next]
      exact (acceptedNumbers_finished ..).trans (congrArg _ unchanged.events)
    · rw [next]
      exact congrArg _ unchanged.events
  simpa only [iterates, quiet] using same

/-- A trial that is accepted adds its point to the iterates. -/
theorem tried_iterates (h : s.Recorded) (success : (s.proposed tall).evaluateTrial.2 = none) :
    iterates (s.tried tall).events (s.tried tall).calls =
      iterates s.events s.calls ++
        if (s.trialReduction tall).acceptable then [(s.tried tall).x] else [] := by
  have accepted := tried_accepted tall s
  have before : iterates s.events (s.tried tall).calls = iterates s.events s.calls :=
    iterates_eq_of_keeps h.known (s.tried_keeps tall)
  rw [iterates, accepted, ← List.cons_append, List.filterMap_append, ← before]
  refine congrArg (_ ++ ·) ?_
  split
  next good =>
    obtain ⟨i, call, ⟨found, kind⟩, point, -⟩ := (tried_recorded h success).current
    rw [if_pos good] at accepted
    rw [accepted, List.getLast?_concat] at kind
    obtain ⟨place, -⟩ := kind
    obtain rfl : i = s.nfev := Nat.succ.inj place
    simp [getElem?_points, found, point]
  next => rfl

theorem attempt_iterates_of_failure {e : Error α} (h : s.Recorded)
    (failure : (s.proposed tall).evaluateTrial.2 = some e) :
    iterates (s.attempt tall c).state.events (s.attempt tall c).state.calls =
      iterates s.events s.calls := by
  have same : iterates s.events (s.attempt tall c).state.calls = iterates s.events s.calls :=
    iterates_eq_of_keeps h.known (s.attempt_keeps tall c)
  have quiet : acceptedNumbers (s.attempt tall c).state.events = acceptedNumbers s.events := by
    rw [attempt_of_failure failure]
    exact (acceptedNumbers_aborted ..).trans (congrArg _ (proposed_same tall s).events)
  simpa only [iterates, quiet] using same

theorem attempt_iterates_of_success (success : (s.proposed tall).evaluateTrial.2 = none) :
    iterates (s.attempt tall c).state.events (s.attempt tall c).state.calls =
      iterates (s.tried tall).events (s.tried tall).calls := by
  rw [attempt_of_success success]
  split
  next info ends =>
    have quiet := acceptedNumbers_finished (s.tried tall).events ((s.tried tall).outcome info)
    exact congrArg (fun numbers => (1 :: numbers).filterMap _) quiet
  next =>
    split
    · rfl
    · rfl

end State

/-! ### Runs -/

namespace Stage

variable {p : Problem α} {tall : p.parameterCount ≤ p.residualCount} {c : Config α}

/-- Where the solve has been so far. -/
def iterates (stage : Stage p) : List (Vector α p.parameterCount) :=
  LeastSquares.iterates stage.state.events stage.state.calls

/-- A step of a solve leaves the iterates as they are, unless it is a trial that is accepted. -/
theorem next_iterates {stage : Stage p} (h : stage.Recorded) :
    (stage.next tall c).iterates = stage.iterates ∨
      ∃ s, stage = .attempt s ∧ (s.proposed tall).evaluateTrial.2 = none ∧
        (s.trialReduction tall).acceptable ∧
        (stage.next tall c).iterates = stage.iterates ++ [(s.tried tall).x] := by
  cases stage with
  | linearize s => exact .inl (State.linearize_iterates h)
  | stopped info s => exact .inl rfl
  | attempt s =>
    cases outcome : (s.proposed tall).evaluateTrial.2 with
    | some e => exact .inl (State.attempt_iterates_of_failure h outcome)
    | none =>
      have next : (Stage.next tall c (.attempt s)).iterates = _ :=
        (State.attempt_iterates_of_success outcome).trans (State.tried_iterates h outcome)
      by_cases good : (s.trialReduction tall).acceptable
      · rw [if_pos good] at next
        exact .inr ⟨s, rfl, outcome, good, next⟩
      · rw [if_neg good, List.append_nil] at next
        exact .inl next

/-- However far a solve has got, it has been where it was before. -/
theorem run_iterates (steps : Nat) {stage : Stage p} (h : stage.Recorded) :
    stage.iterates <+: (stage.run tall c steps).iterates := by
  have grown : stage.iterates <+: (stage.run tall c steps).iterates ∧
      (stage.run tall c steps).Recorded := by
    refine @run_invariant _ _ _ _ _
      (fun now => stage.iterates <+: now.iterates ∧ now.Recorded) ?_ steps _ ⟨List.prefix_rfl, h⟩
    rintro now ⟨grown, recorded⟩
    refine ⟨?_, next_recorded recorded⟩
    rcases @next_iterates _ _ _ tall c now recorded with same | ⟨s, -, -, -, longer⟩
    · rwa [same]
    · rw [longer]
      exact grown.trans (List.prefix_append _ _)
  exact grown.1

end Stage

theorem State.start_iterates {p : Problem α} (c : Config α) (x : Vector α p.parameterCount)
    (residuals : Vector α p.residualCount) (diag : Vector α p.parameterCount)
    (buffers : Buffers α p.residualCount p.parameterCount) :
    (State.start c x residuals diag buffers).iterates = [x] := by
  unfold State.start
  dsimp only
  split
  · rfl
  · rfl

end LeastSquares
