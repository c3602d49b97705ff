import LeastSquares.Proofs.Budget
import LeastSquares.Proofs.Comparison
import LeastSquares.Proofs.Outcome

/-!
# The code a solve ends with

A solve ends with code zero just when it refuses its input, and it does that before anything has
been evaluated or changed. In all other cases the code is one to eight for a verdict of the solver
or the negative status of a residual function that failed. The code tells the termination.
-/
namespace LeastSquares

/-! ### Codes -/

namespace Termination

theorem code_of_isVerdict {t : Termination} (verdict : t.isVerdict) : 1 ≤ t.code ∧ t.code ≤ 8 := by
  cases t with
  | invalidInput => cases verdict
  | userAbort status => cases verdict
  | _ => decide

/-- A code tells its termination, as long as the statuses of aborts are negative. -/
theorem ofCode?_code {t : Termination} (negative : ∀ status, t = .userAbort status → status < 0) :
    ofCode? t.code = some t := by
  cases t with
  | userAbort status => exact if_pos (negative status rfl)
  | _ => rfl

end Termination

variable {α : Type} [Scalar α]

/-! ### Reasons to stop -/

/-- What a stage that has stopped has stopped for: a verdict, or an error of an evaluation. -/
def Stage.Reasoned {p : Problem α} : Stage p → Prop
  | stopped info _ => info.isVerdict ∨ ∃ e : Error α, info = .userAbort e.abortStatus
  | linearize _ | attempt _ => True

namespace State

variable {p : Problem α} {tall : p.parameterCount ≤ p.residualCount} {c : Config α}

theorem start_reasoned (x : Vector α p.parameterCount) (residuals : Vector α p.residualCount)
    (diag : Vector α p.parameterCount) (buffers : Buffers α p.residualCount p.parameterCount) :
    (start c x residuals diag buffers).Reasoned := by
  unfold start
  dsimp only
  split
  next e _ => exact .inr ⟨e, rfl⟩
  next => exact True.intro

theorem linearize_reasoned (s : State p) : (s.linearize tall c).Reasoned := by
  rcases s.linearize_cases tall c with ⟨e, -, next⟩ | ⟨-, t, -, next | next⟩
  · rw [next]
    exact .inr ⟨e, rfl⟩
  · rw [next]
    exact .inl rfl
  · rw [next]
    exact True.intro

theorem attempt_reasoned (s : State p) : (s.attempt tall c).Reasoned := by
  cases failure : (s.proposed tall).evaluateTrial.2 with
  | some e =>
    rw [attempt_of_failure failure]
    exact .inr ⟨e, rfl⟩
  | none =>
    rw [attempt_of_success failure]
    split
    next info ends => exact .inl (isVerdict_of_verdict ends)
    next => split <;> exact True.intro

end State

theorem Stage.next_reasoned {p : Problem α} {tall : p.parameterCount ≤ p.residualCount}
    {c : Config α} (stage : Stage p) (h : stage.Reasoned) : (stage.next tall c).Reasoned := by
  cases stage with
  | linearize s => exact s.linearize_reasoned
  | attempt s => exact s.attempt_reasoned
  | stopped info s => exact h

theorem Stage.run_reasoned {p : Problem α} {tall : p.parameterCount ≤ p.residualCount}
    {c : Config α} (steps : Nat) {stage : Stage p} (h : stage.Reasoned) :
    (stage.run tall c steps).Reasoned :=
  run_invariant next_reasoned steps h

/-- An accepted solve ends with a verdict or with the status of an error. -/
theorem Accepted.reasoned {p : Problem α} {c : Config α} {x residuals diag : Array α}
    {w : Workspace α} (h : Accepted p c x residuals diag w) :
    (solve p c x residuals diag w).outcome.info.isVerdict ∨
      ∃ e : Error α, (solve p c x residuals diag w).outcome.info = .userAbort e.abortStatus := by
  obtain ⟨info, s, stopped, ended⟩ := solve_stops h
  have reasoned : (Stage.stopped info s).Reasoned :=
    stopped ▸ Stage.run_reasoned _ (State.start_reasoned ..)
  rw [ended]
  exact reasoned

/-! ### Comparisons in double precision -/

theorem not_nonneg_iff (x : Float) : ¬ 0 ≤ x ↔ x < 0 ∨ x.isNaN := by
  have zero : (0 : Float).isNaN = false := rfl
  rw [Double.not_le_iff, zero]
  simp only [Bool.false_eq_true, false_or]

theorem not_pos_iff (x : Float) : ¬ 0 < x ↔ x ≤ 0 ∨ x.isNaN := by
  have zero : (0 : Float).isNaN = false := rfl
  rw [Double.not_lt_iff, zero]
  simp only [Bool.false_eq_true, false_or]

/-! ### The code of a solve -/

/-- What makes a configuration in double precision invalid for `m` residuals and `n` parameters. -/
def Config.Invalid (c : Config Float) (m n : Nat) (diag : Array Float) : Prop :=
  n = 0 ∨ m < n ∨ (∃ tolerance ∈ [c.ftol, c.xtol, c.gtol], tolerance < 0 ∨ tolerance.isNaN) ∨
    c.budget n = 0 ∨ (c.factor ≤ 0 ∨ c.factor.isNaN) ∨
    (c.scaling = .explicit ∧ ∃ d ∈ diag, d ≤ 0 ∨ d.isNaN)

theorem Config.invalid_iff {c : Config Float} {m n : Nat} {diag : Array Float}
    (size : diag.size = n) : c.Invalid m n diag ↔ c.validate m n diag ≠ .ok () := by
  simp only [Invalid, ← not_nonneg_iff, ← not_pos_iff, List.mem_cons, List.not_mem_nil, or_false,
    exists_eq_or_imp, exists_eq_left]
  exact (validate_ne_ok_iff size).symm

/-- A solve ends with code zero if and only if its input does not fit together or its configuration
is invalid, and then it has made no call and changed nothing. All other codes are one to eight or
negative. A code tells the termination. -/
theorem solve_code (p : Problem Float) (c : Config Float) (x residuals diag : Array Float)
    (w : Workspace Float) :
    let run := solve p c x residuals diag w
    (run.outcome.info.code = 0 ↔
      Misfit p x residuals diag w ∨ c.Invalid residuals.size x.size diag) ∧
    (run.outcome.info.code = 0 →
      run.calls = #[] ∧ run.outcome.nfev = 0 ∧ run.outcome.iterations = 0 ∧ run.x = x ∧
        run.residuals = residuals ∧ run.diag = diag ∧ run.workspace = w) ∧
    (run.outcome.info.code ≠ 0 →
      (1 ≤ run.outcome.info.code ∧ run.outcome.info.code ≤ 8) ∨ run.outcome.info.code < 0) ∧
    Termination.ofCode? run.outcome.info.code = some run.outcome.info := by
  intro run
  have refused_iff : Misfit p x residuals diag w ∨ c.Invalid residuals.size x.size diag ↔
      ¬ Accepted p c x residuals diag w := by
    rw [not_accepted_iff]
    by_cases size : diag.size = x.size
    · rw [Config.invalid_iff size, and_iff_right size]
    · -- Scale factors of the wrong number are a misfit already.
      exact iff_of_true (.inl (.inr (.inr (.inl size)))) (.inl (.inr (.inr (.inl size))))
  rw [refused_iff]
  by_cases h : Accepted p c x residuals diag w
  · have reasoned : run.outcome.info.isVerdict ∨ ∃ e : Error Float,
        run.outcome.info = .userAbort e.abortStatus := h.reasoned
    generalize run.outcome.info = info at reasoned ⊢
    have range : (1 ≤ info.code ∧ info.code ≤ 8) ∨ info.code < 0 := by
      rcases reasoned with verdict | ⟨e, rfl⟩
      · exact .inl (Termination.code_of_isVerdict verdict)
      · exact .inr e.abortStatus_neg
    have nonzero : info.code ≠ 0 := by omega
    refine ⟨iff_of_false nonzero (not_not_intro h), fun zero => absurd zero nonzero,
      fun _ => range, Termination.ofCode?_code ?_⟩
    rintro status rfl
    rcases reasoned with verdict | ⟨e, abort⟩
    · cases verdict
    · cases abort
      exact e.abortStatus_neg
  · obtain ⟨e, rejected⟩ := solve_of_not_accepted h
    rw [show run = .rejected x residuals diag w e from rejected]
    exact ⟨iff_of_true rfl h, fun _ => ⟨rfl, rfl, rfl, rfl, rfl, rfl, rfl⟩,
      fun nonzero => absurd rfl nonzero, rfl⟩

/-- A tolerance that is not a number is refused, though it is not less than zero. -/
example : (solveRootTwo { limited 4 with gtol := 0 / 0 }).outcome.info.code = 0 ∧
    ¬ (0 / 0 : Float) < 0 := by
  decide +kernel

end LeastSquares
