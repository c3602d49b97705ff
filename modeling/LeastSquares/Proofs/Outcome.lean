import LeastSquares.Proofs.Acceptance
import LeastSquares.Proofs.Record
import LeastSquares.Problem.Formula
import LeastSquares.Problem.Interruption

/-!
# What a solve hands back

A solve that runs to its end hands back the point of one evaluation, the buffer that evaluation
left and the norm of it. A solve whose residual function fails hands back the same of the failing
evaluation, which is its last.
-/
namespace LeastSquares

variable {α : Type} [Scalar α]

/-- A call that fails is the last one of a solve, which stops for it. -/
theorem State.Interrupted.eq_last {p : Problem α} {info : Termination} {s : State p}
    (h : s.Interrupted info) {k : Nat} {call : Call α p.residualCount p.parameterCount}
    {e : Error α} (found : s.calls[k]? = some call) (failure : call.response.failure = some e) :
    s.calls.size = k + 1 ∧ info = .userAbort e.abortStatus ∧ s.x = call.point ∧
      s.residuals = call.response.buffer := by
  obtain ⟨e', abort, earlier, last, calls, succeeded, failure', point, buffer⟩ := h.failed
  have atEnd : k = earlier.size ∧ last = call := by
    rw [calls, Array.getElem?_push] at found
    split at found
    next atEnd => exact ⟨atEnd, Option.some.inj found⟩
    next =>
      -- The calls before the last one all succeeded.
      rw [succeeded call (Array.mem_of_getElem? found)] at failure
      cases failure
  obtain ⟨rfl, rfl⟩ := atEnd
  have same : e' = e := Option.some.inj (failure'.symm.trans failure)
  refine ⟨?_, ?_, point.symm, buffer.symm⟩
  · rw [calls, Array.size_push]
  · rw [abort, same]

/-- A run agrees with its record, unless its input was refused. -/
theorem solve_recorded {p : Problem α} {c : Config α} {x residuals diag : Array α}
    {w : Workspace α} (h : Accepted p c x residuals diag w) :
    ∃ info, ∃ s : State p, solve p c x residuals diag w = .ended info s ∧
      (Stage.stopped info s).Recorded :=
  ⟨h.outcome.1, h.outcome.2, solve_of_accepted h, solveFrom_recorded ..⟩

/-- The iterate that a completed solve hands back is the point of its first evaluation or of the
last trial it accepted, bit for bit; the residuals are what that evaluation left. Neither the
trials it refused nor the points at which it took differences can be seen in them. -/
theorem solve_current (p : Problem α) (c : Config α) (x residuals diag : Array α)
    (w : Workspace α)
    (accepted : (solve p c x residuals diag w).outcome.info ≠ .invalidInput)
    (completed : (solve p c x residuals diag w).outcome.info.isAbort = false) :
    let run := solve p c x residuals diag w
    (∃ i call, IsCurrent run.events run.calls i call ∧
      (∃ buffer, call.response = p.eval (i + 1) call.point buffer) ∧
      call.response.failure = none ∧
      run.x = call.point.toArray ∧ run.residuals = call.response.buffer.toArray) ∧
    run.outcome.fnorm = norm run.residuals.toList ∧
    run.outcome.iterations = (acceptedNumbers run.events).length ∧
    triedNumbers run.events = trialNumbers run.calls := by
  obtain ⟨info, s, ended, recorded⟩ := solve_recorded (accepted_of_info_ne accepted)
  rw [ended] at completed ⊢
  have recorded : s.Recorded := by
    rwa [Stage.Recorded, show info.isAbort = false from completed] at recorded
  obtain ⟨i, call, current, point, buffer⟩ := recorded.current
  have success := recorded.succeeded call (Array.mem_of_getElem? current.1)
  refine ⟨⟨i, call, current, recorded.genuine i call current.1, success, ?_, ?_⟩,
    recorded.fnorm, recorded.iterations, recorded.trials⟩
  · exact congrArg Vector.toArray point.symm
  · exact congrArg Vector.toArray buffer.symm

/-- The one residual `x * x - 2`. -/
def rootTwo : Problem Float :=
  Formula.system #[[.parameter 0, .parameter 0, .binary .mul, .constant 2, .binary .sub]] 1

/-- The solve of `rootTwo` from `0.1` in new buffers. -/
def solveRootTwo (c : Config Float) : Run rootTwo :=
  solve rootTwo c #[0.1] #[0] #[1] (.new 1 1)

/-- The default configuration with the given budget. -/
def limited (maxfev : Nat) : Config Float :=
  { Config.default with maxfev := some maxfev }

/-- From `0.1` the first trial overshoots and is refused, and the second one is accepted. -/
theorem solve_current_rootTwo :
    let run := solve rootTwo { Config.default with maxfev := some 4 } #[0.1] #[0] #[1] (.new 1 1)
    run.outcome.info = .maxfevReached ∧ triedNumbers run.events = [3, 4] ∧
      acceptedNumbers run.events = [4] ∧
      ∃ i call, IsCurrent run.events run.calls i call ∧ run.x = call.point.toArray := by
  intro run
  have stops : run.outcome.info = .maxfevReached ∧ triedNumbers run.events = [3, 4] ∧
      acceptedNumbers run.events = [4] := by decide +kernel
  obtain ⟨info, tried, accepted⟩ := stops
  obtain ⟨⟨i, call, current, _, _, x, _⟩, _⟩ := solve_current rootTwo
    { Config.default with maxfev := some 4 } #[0.1] #[0] #[1] (.new 1 1)
    (by change run.outcome.info ≠ _; rw [info]; decide)
    (by change run.outcome.info.isAbort = _; rw [info]; rfl)
  exact ⟨info, tried, accepted, i, call, current, x⟩

/-- An evaluation that fails is the last one: the solve stops with the negative status of the error
and hands back the point that was evaluated, whatever the evaluation left in the buffer, and the
norm of that. A solve aborts for no other reason. -/
theorem solve_failure (p : Problem α) (c : Config α) (x residuals diag : Array α)
    (w : Workspace α) :
    let run := solve p c x residuals diag w
    (∀ (k : Nat) (call : Call α p.residualCount p.parameterCount) (e : Error α),
      run.calls[k]? = some call → call.response.failure = some e →
        (∃ buffer, call.response = p.eval (k + 1) call.point buffer) ∧
        run.calls.size = k + 1 ∧
        run.outcome.info = .userAbort e.abortStatus ∧ e.abortStatus < 0 ∧
        run.outcome.nfev = k + 1 ∧
        run.outcome.iterations = (acceptedNumbers run.events).length ∧
        run.x = call.point.toArray ∧ run.residuals = call.response.buffer.toArray ∧
        run.outcome.fnorm = norm run.residuals.toList) ∧
    (∀ status, run.outcome.info = .userAbort status →
      ∃ call e, run.calls.back? = some call ∧ call.response.failure = some e ∧
        status = e.abortStatus) := by
  by_cases h : Accepted p c x residuals diag w
  · obtain ⟨info, s, ended, recorded⟩ := solve_recorded h
    rw [ended]
    rw [Stage.Recorded] at recorded
    split at recorded
    next aborted =>
      -- Only the last call failed, and the solve stopped for it.
      constructor
      · intro k call e found failure
        obtain ⟨size, abort, point, buffer⟩ := recorded.eq_last found failure
        refine ⟨recorded.genuine k call found, size, abort, e.abortStatus_neg, ?_,
          recorded.iterations, ?_, ?_, recorded.fnorm⟩
        · exact recorded.nfev.trans size
        · exact congrArg Vector.toArray point
        · exact congrArg Vector.toArray buffer
      · intro status abort
        obtain ⟨e, abort', earlier, last, calls, _, failure, _⟩ := recorded.failed
        refine ⟨last, e, ?_, failure, ?_⟩
        · change s.calls.back? = some last
          rw [calls, Array.back?_push]
        · exact Termination.userAbort.inj (abort.symm.trans abort')
    next completed =>
      -- No call failed.
      constructor
      · intro k call e found failure
        rw [recorded.succeeded call (Array.mem_of_getElem? found)] at failure
        cases failure
      · intro status abort
        rw [show info = .userAbort status from abort] at completed
        exact absurd rfl completed
  · obtain ⟨e, rejected⟩ := solve_of_not_accepted h
    rw [rejected]
    -- Nothing was called.
    constructor
    · intro k call e found
      cases found
    · intro status abort
      cases abort

/-- A solve whose first trial fails after the starting point and one column of the Jacobian. -/
theorem solve_failure_third :
    let run := solve (rootTwo.interrupted [⟨3, 0, .aborted 7⟩]) .default #[0.1] #[0] #[1]
      (.new 1 1)
    run.outcome.info = .userAbort (-7) ∧ run.outcome.nfev = 3 ∧
      ∃ call, run.calls.back? = some call ∧ run.x = call.point.toArray := by
  intro run
  have third : (run.calls[2]?.bind (·.response.failure)).map Error.abortStatus = some (-7) := by
    decide +kernel
  obtain ⟨e, failure, status⟩ := Option.map_eq_some_iff.mp third
  obtain ⟨call, found, failure⟩ := Option.bind_eq_some_iff.mp failure
  obtain ⟨failing, aborting⟩ := solve_failure (rootTwo.interrupted [⟨3, 0, .aborted 7⟩]) .default
    #[0.1] #[0] #[1] (.new 1 1)
  obtain ⟨_, size, info, _, nfev, _, x, _⟩ := failing 2 call e found failure
  refine ⟨info.trans (congrArg _ status), nfev, call, ?_, x⟩
  rw [Array.back?_eq_getElem?, size]
  exact found

end LeastSquares
