import LeastSquares.Proofs.Acceptance
import LeastSquares.Proofs.Record

/-!
# The evaluation budget

A trial that does not stop a solve has left part of its evaluation budget unspent, and a Jacobian is
always followed by a trial. What is left of the budget therefore bounds the number of steps to come,
and the steps that a solve is given are enough: it stops of its own accord, and is never cut short.
-/
namespace LeastSquares

variable {α : Type} [Scalar α]

/-! ### What a step spends -/

/-- A Jacobian that no evaluation has interrupted took one for each column. -/
theorem Differencing.run_nfev {m n : Nat} {p : Problem α} {epsfcn : α} {residuals : Vector α m}
    {d : Differencing α m n} (complete : (d.run p epsfcn residuals).failure = none) :
    (d.run p epsfcn residuals).nfev = d.nfev + n := by
  refine complete_invariant (fun k done => done.nfev = d.nfev + k) rfl ?_ complete
  intro j done going success before
  rw [column_of_success going success]
  change done.nfev + 1 = d.nfev + (j + 1)
  rw [before, Nat.add_assoc]

namespace State

variable {p : Problem α}

/-- A linearization stops or goes on to a trial, and has then spent one evaluation for each
parameter. -/
theorem linearize_spends (tall : p.parameterCount ≤ p.residualCount) (c : Config α) (s : State p) :
    (∃ info t, s.linearize tall c = .stopped info t) ∨
      ∃ t : State p, s.linearize tall c = .attempt t ∧ t.nfev = s.nfev + p.parameterCount := by
  rcases s.linearize_cases tall c with ⟨e, -, next⟩ | ⟨success, t, same, next | next⟩
  · exact .inl ⟨_, _, next⟩
  · exact .inl ⟨_, _, next⟩
  · exact .inr ⟨t, next, same.nfev.trans (s.unfilled.run_nfev success)⟩

/-- A trial stops or goes on, and has then spent one evaluation and left at least one. -/
theorem attempt_spends (tall : p.parameterCount ≤ p.residualCount) (c : Config α) (s : State p) :
    (∃ info t, s.attempt tall c = .stopped info t) ∨
      ∃ t : State p, (s.attempt tall c = .linearize t ∨ s.attempt tall c = .attempt t) ∧
        t.nfev = s.nfev + 1 ∧ t.nfev < c.budget p.parameterCount := by
  cases failure : (s.proposed tall).evaluateTrial.2 with
  | some e => exact .inl ⟨_, _, attempt_of_failure failure⟩
  | none =>
    rw [attempt_of_success failure]
    split
    · exact .inl ⟨_, _, rfl⟩
    next going =>
      have left := lt_budget_of_no_verdict going
      refine .inr ⟨s.tried tall, ?_, tried_nfev tall s, left⟩
      split
      · exact .inl rfl
      · exact .inr rfl

end State

/-! ### How long a solve can go on -/

namespace Stage

variable {p : Problem α} {tall : p.parameterCount ≤ p.residualCount} {c : Config α}

/-- A bound on the steps to come, given the budget. -/
def stepsLeft (budget : Nat) : Stage p → Nat
  | linearize s => 2 * (budget - (s.nfev + 1)) + 2
  | attempt s => 2 * (budget - (s.nfev + 1)) + 1
  | stopped _ _ => 0

theorem next_stepsLeft {stage : Stage p} (going : ∀ info s, stage ≠ stopped info s) :
    (stage.next tall c).stepsLeft (c.budget p.parameterCount) <
      stage.stepsLeft (c.budget p.parameterCount) := by
  cases stage with
  | linearize s =>
    rcases s.linearize_spends tall c with ⟨info, t, next⟩ | ⟨t, next, spent⟩
    · simp only [Stage.next, next, stepsLeft]
      omega
    · simp only [Stage.next, next, stepsLeft]
      omega
  | attempt s =>
    rcases s.attempt_spends tall c with ⟨info, t, next⟩ | ⟨t, next | next, spent, left⟩
    · simp only [Stage.next, next, stepsLeft]
      omega
    · simp only [Stage.next, next, stepsLeft]
      omega
    · simp only [Stage.next, next, stepsLeft]
      omega
  | stopped info s => exact absurd rfl (going info s)

theorem run_stopped (tall : p.parameterCount ≤ p.residualCount) {stage : Stage p} {steps : Nat}
    (enough : stage.stepsLeft (c.budget p.parameterCount) ≤ steps) :
    ∃ info s, stage.run tall c steps = stopped info s := by
  induction steps generalizing stage with
  | zero =>
    cases stage with
    | linearize s => cases enough
    | attempt s => cases enough
    | stopped info s => exact ⟨info, s, rfl⟩
  | succ steps ih =>
    cases stage with
    | linearize s =>
      have fewer := @next_stepsLeft _ _ p tall c (linearize s) fun _ _ same => by cases same
      exact ih (by omega)
    | attempt s =>
      have fewer := @next_stepsLeft _ _ p tall c (attempt s) fun _ _ same => by cases same
      exact ih (by omega)
    | stopped info s => exact ⟨info, s, rfl⟩

end Stage

/-- An accepted solve stops by itself within the steps it is given. -/
theorem solve_stops {p : Problem α} {c : Config α} {x residuals diag : Array α} {w : Workspace α}
    (h : Accepted p c x residuals diag w) :
    ∃ info s, (State.start c h.given.x h.given.residuals h.given.diag h.given.buffers).run h.tall c
        (stepBound (c.budget p.parameterCount)) = .stopped info s ∧
      solve p c x residuals diag w = .ended info s := by
  have some := h.budget_pos
  have enough : (State.start c h.given.x h.given.residuals h.given.diag
      h.given.buffers).stepsLeft (c.budget p.parameterCount) ≤
        stepBound (c.budget p.parameterCount) := by
    unfold State.start stepBound
    dsimp only
    split
    · exact Nat.zero_le _
    · simp only [Stage.stepsLeft, State.opened]
      omega
  obtain ⟨info, s, stopped⟩ := Stage.run_stopped h.tall enough
  refine ⟨info, s, stopped, ?_⟩
  rw [solve_of_accepted h, Accepted.outcome, solveFrom, stopped]
  rfl

end LeastSquares
