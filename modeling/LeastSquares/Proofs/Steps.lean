import LeastSquares.Solver.Run

/-!
# The ways a step can end

A linearization aborts, converges or leads to a trial. A trial aborts, is the last one by the
verdict of some test, or leads to a linearization or to another trial. What is proved about whole
solves goes through these cases.
-/
namespace LeastSquares

variable {α : Type} [Scalar α]

namespace Termination

/-- Whether a solve stopped by one of its own tests: its input was not refused, and no evaluation
failed. -/
def isVerdict : Termination → Bool
  | invalidInput | userAbort _ => false
  | _ => true

theorem isAbort_of_isVerdict {t : Termination} (verdict : t.isVerdict) : t.isAbort = false := by
  cases t <;> first | rfl | cases verdict

end Termination

namespace State

variable {p : Problem α}

/-! ### Linearizing -/

/-- The state in which the gradient is tested. -/
def tested (tall : p.parameterCount ≤ p.residualCount) (c : Config α)
    (norms : Vector α p.parameterCount) (s : State p) : State p :=
  let s := s.settle c norms
  { s with
    gnorm := gradientNorm tall s.buffers.jacobian s.buffers.pivots s.buffers.qtf norms s.fnorm }

variable {tall : p.parameterCount ≤ p.residualCount} {c : Config α} {s : State p}

theorem testGradient_of_le {norms : Vector α p.parameterCount}
    (orthogonal : (s.tested tall c norms).gnorm ≤ c.gtol) :
    s.testGradient tall c norms = (s.tested tall c norms).finish .gtolReached :=
  if_pos orthogonal

theorem testGradient_of_not_le {norms : Vector α p.parameterCount}
    (steep : ¬ (s.tested tall c norms).gnorm ≤ c.gtol) :
    s.testGradient tall c norms =
      .attempt { s.tested tall c norms with diag := (s.tested tall c norms).raisedDiag c norms } :=
  if_neg steep

theorem linearize_of_failure {e : Error α} (failure : (s.differentiate c).failure = some e) :
    s.linearize tall c = (s.interrupted (s.differentiate c)).abort e := by
  simp only [linearize, failure]

theorem linearize_of_success (success : (s.differentiate c).failure = none) :
    s.linearize tall c = (s.factorize tall (s.differentiate c)).1.testGradient tall c
      (s.factorize tall (s.differentiate c)).2 := by
  simp only [linearize, success]

/-! ### Trying a step -/

/-- The state in which a trial is evaluated. -/
def proposed (tall : p.parameterCount ≤ p.residualCount) (s : State p) : State p :=
  (s.searchStep tall).placeStep.capRegion

/-- The state in which the tests after a trial are made: the trial has been judged, and its step has
been taken if it is a good one. -/
def judged (tall : p.parameterCount ≤ p.residualCount) (length : α) (s : State p) : State p :=
  if (s.judge tall length).2.acceptable then (s.judge tall length).1.accept
  else (s.judge tall length).1

@[simp] theorem judged_nfev (tall : p.parameterCount ≤ p.residualCount) (length : α) (s : State p) :
    (s.judged tall length).nfev = s.nfev := by
  unfold judged
  split <;> rfl

@[simp] theorem judged_calls (tall : p.parameterCount ≤ p.residualCount) (length : α)
    (s : State p) : (s.judged tall length).calls = s.calls := by
  unfold judged
  split <;> rfl

theorem judged_iterations (tall : p.parameterCount ≤ p.residualCount) (length : α) (s : State p) :
    (s.judged tall length).iterations =
      s.iterations + if (s.judge tall length).2.acceptable then 1 else 0 := by
  unfold judged
  split <;> rfl

theorem judged_events (tall : p.parameterCount ≤ p.residualCount) (length : α) (s : State p) :
    (s.judged tall length).events = (s.judge tall length).1.events := by
  unfold judged
  split <;> rfl

/-- The verdict of the tests after a trial, if one of them ends the solve. -/
def verdict (c : Config α) (r : Reduction α) (s : State p) : Option Termination :=
  (convergence c r s.region.delta s.xnorm).or
    (exhaustion (c.budget p.parameterCount) s.nfev r s.region.delta s.xnorm s.gnorm)

theorem isVerdict_of_verdict {r : Reduction α} {info : Termination}
    (ends : s.verdict c r = some info) : info.isVerdict := by
  rcases Option.or_eq_some_iff.mp ends with converged | ⟨-, exhausted⟩
  · grind [convergence, Termination.isVerdict]
  · grind [exhaustion, Termination.isVerdict]

/-- Only a spent budget is reported as one. -/
theorem budget_le_of_verdict {r : Reduction α} (ends : s.verdict c r = some .maxfevReached) :
    c.budget p.parameterCount ≤ s.nfev := by
  rcases Option.or_eq_some_iff.mp ends with converged | ⟨-, exhausted⟩
  · grind [convergence]
  · grind [exhaustion]

/-- A solve does not go on after a trial unless there is something left of its budget. -/
theorem lt_budget_of_no_verdict {r : Reduction α} (going : s.verdict c r = none) :
    s.nfev < c.budget p.parameterCount := by
  obtain ⟨-, going⟩ := Option.or_eq_none_iff.mp going
  grind [exhaustion]

/-- A trial ends the solve if one of the tests says so; otherwise a good step leads to a new
linearization and a poor one to another trial. -/
theorem conclude_eq (length : α) (s : State p) : s.conclude tall c length =
    match (s.judged tall length).verdict c (s.judge tall length).2 with
    | some info => (s.judged tall length).finish info
    | none =>
      if (s.judge tall length).2.acceptable then .linearize (s.judged tall length)
      else .attempt (s.judged tall length) := by
  unfold conclude judged
  dsimp only
  generalize s.judge tall length = result
  obtain ⟨t, r⟩ := result
  dsimp only
  generalize (if r.acceptable then t.accept else t) = u
  unfold verdict
  cases convergence c r u.region.delta u.xnorm with
  | some info => rfl
  | none => rfl

/-! ### Trials -/

/-- How the step that is tried was judged, if its evaluation succeeded. -/
def trialReduction (tall : p.parameterCount ≤ p.residualCount) (s : State p) : Reduction α :=
  ((s.proposed tall).evaluateTrial.1.judge tall (s.searchStep tall).placeStep.stepLength).2

/-- The state a trial leads to, if its evaluation succeeded. -/
def tried (tall : p.parameterCount ≤ p.residualCount) (s : State p) : State p :=
  (s.proposed tall).evaluateTrial.1.judged tall (s.searchStep tall).placeStep.stepLength

theorem proposed_diag (tall : p.parameterCount ≤ p.residualCount) (s : State p) :
    (s.proposed tall).diag = s.diag := by
  unfold proposed capRegion
  split <;> rfl

/-- No trial touches the scale factors. -/
theorem tried_diag (tall : p.parameterCount ≤ p.residualCount) (s : State p) :
    (s.tried tall).diag = s.diag := by
  refine Eq.trans ?_ (proposed_diag tall s)
  unfold tried judged
  split <;> rfl

theorem attempt_of_failure {e : Error α} (failure : (s.proposed tall).evaluateTrial.2 = some e) :
    s.attempt tall c = (s.proposed tall).evaluateTrial.1.stranded.abort e := by
  unfold proposed at failure ⊢
  unfold attempt
  dsimp only
  generalize (s.searchStep tall).placeStep.capRegion.evaluateTrial = result at failure ⊢
  obtain ⟨t, outcome⟩ := result
  cases failure
  rfl

theorem attempt_of_success (success : (s.proposed tall).evaluateTrial.2 = none) :
    s.attempt tall c =
      match (s.tried tall).verdict c (s.trialReduction tall) with
      | some info => (s.tried tall).finish info
      | none =>
        if (s.trialReduction tall).acceptable then .linearize (s.tried tall)
        else .attempt (s.tried tall) := by
  have concluded := @conclude_eq _ _ _ tall c (s.searchStep tall).placeStep.stepLength
    (s.proposed tall).evaluateTrial.1
  unfold tried trialReduction
  rw [← concluded]
  unfold proposed at success ⊢
  unfold attempt
  dsimp only
  generalize (s.searchStep tall).placeStep.capRegion.evaluateTrial = result at success ⊢
  obtain ⟨t, outcome⟩ := result
  cases success
  rfl

end State

/-! ### Runs -/

namespace Stage

variable {p : Problem α} {tall : p.parameterCount ≤ p.residualCount} {c : Config α}

/-- What every step preserves holds however far a solve has got. -/
theorem run_invariant {P : Stage p → Prop} (step : ∀ stage, P stage → P (stage.next tall c))
    (steps : Nat) {stage : Stage p} (start : P stage) : P (stage.run tall c steps) := by
  induction steps generalizing stage with
  | zero => exact start
  | succ steps ih =>
    cases stage with
    | linearize s => exact ih (step _ start)
    | attempt s => exact ih (step _ start)
    | stopped info s => exact start

theorem run_of_stopped (info : Termination) (s : State p) (steps : Nat) :
    (stopped info s).run tall c steps = .stopped info s := by
  cases steps <;> rfl

theorem run_succ (stage : Stage p) (steps : Nat) :
    stage.run tall c (steps + 1) = (stage.next tall c).run tall c steps := by
  cases stage with
  | linearize s => rfl
  | attempt s => rfl
  | stopped info s => exact (run_of_stopped info s steps).symm

/-- Two solves side by side, of one problem or of two: what every step of both preserves relates
them however far they have got. -/
theorem run_related {p' : Problem α} {tall' : p'.parameterCount ≤ p'.residualCount}
    {R : Stage p → Stage p' → Prop} {c' : Config α}
    (step : ∀ stage stage', R stage stage' → R (stage.next tall c) (stage'.next tall' c'))
    (steps : Nat) {stage : Stage p} {stage' : Stage p'} (start : R stage stage') :
    R (stage.run tall c steps) (stage'.run tall' c' steps) := by
  induction steps generalizing stage stage' with
  | zero => exact start
  | succ steps ih =>
    rw [run_succ, run_succ]
    exact ih (step _ _ start)

/-- A solve that has stopped stays as it is, however many more steps it is given. -/
theorem run_of_le {stage : Stage p} {steps more : Nat} {info : Termination} {s : State p}
    (ended : stage.run tall c steps = .stopped info s) (le : steps ≤ more) :
    stage.run tall c more = .stopped info s := by
  induction steps generalizing stage more with
  | zero =>
    change stage = .stopped info s at ended
    rw [ended, run_of_stopped]
  | succ steps ih =>
    obtain ⟨more, rfl⟩ := Nat.exists_eq_add_of_le' (Nat.le_of_add_left_le le)
    rw [run_succ] at ended ⊢
    exact ih ended (Nat.le_of_succ_le_succ le)

end Stage

end LeastSquares
