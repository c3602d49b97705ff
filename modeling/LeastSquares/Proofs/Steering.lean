import LeastSquares.Proofs.Budget
import LeastSquares.Proofs.Outcome

/-!
# What steers a solve

The tolerances and the budget decide when a solve stops, and nothing else. Two solves from one start
that differ in these only are in the same state after as many steps, until one of them stops.
Therefore the points that one of them evaluates are the first of those that the other evaluates. A
larger budget changes nothing at all unless the smaller one has been spent.
-/
namespace LeastSquares

variable {α : Type}

theorem Keeps.points_isPrefix {m n : Nat} {before after : Calls α m n} (h : Keeps before after) :
    points before <+: points after := by
  apply List.IsPrefix.map
  rw [List.prefix_iff_getElem?]
  intro i inside
  rw [Array.getElem?_toList]
  exact h i _ (by simp)

/-- Configurations that agree on everything but when to stop and what to report. -/
structure Config.SteersLike (c c' : Config α) : Prop where
  epsfcn : c.epsfcn = c'.epsfcn
  factor : c.factor = c'.factor
  scaling : c.scaling = c'.scaling

/-- Two stages of solves that started together: either they are the same, or one of the solves has
stopped, having made the first of the calls of the other. -/
inductive Stage.Abreast {p : Problem α} : Stage p → Stage p → Prop where
  | together (stage : Stage p) : Abreast stage stage
  | stopped {info : Termination} {s : State p} {stage : Stage p}
      (kept : Keeps s.calls stage.state.calls) : Abreast (stopped info s) stage
  | passed {info : Termination} {s : State p} {stage : Stage p}
      (kept : Keeps s.calls stage.state.calls) : Abreast stage (stopped info s)

/-- Of two solves that have stopped, one has made the first of the calls of the other. -/
theorem Stage.Abreast.keeps {p : Problem α} {info info' : Termination} {s s' : State p}
    (abreast : Abreast (.stopped info s) (.stopped info' s')) :
    Keeps s.calls s'.calls ∨ Keeps s'.calls s.calls := by
  cases abreast with
  | together => exact .inl (.refl _)
  | stopped kept => exact .inl kept
  | passed kept => exact .inr kept

variable [Scalar α]

namespace State

variable {p : Problem α} {tall : p.parameterCount ≤ p.residualCount} {c c' : Config α}

theorem tested_congr (tall : p.parameterCount ≤ p.residualCount) (alike : c'.SteersLike c)
    (norms : Vector α p.parameterCount) (s : State p) :
    s.tested tall c' norms = s.tested tall c norms := by
  simp only [tested, settle, alike.scaling, alike.factor]

theorem testGradient_abreast (alike : c'.SteersLike c) (norms : Vector α p.parameterCount)
    (s : State p) :
    Stage.Abreast (s.testGradient tall c norms) (s.testGradient tall c' norms) := by
  have same := tested_congr tall alike norms s
  by_cases orthogonal : (s.tested tall c norms).gnorm ≤ c.gtol
  · rw [testGradient_of_le orthogonal]
    by_cases orthogonal' : (s.tested tall c' norms).gnorm ≤ c'.gtol
    · rw [testGradient_of_le orthogonal', same]
      exact .together _
    · rw [testGradient_of_not_le orthogonal', same]
      exact .stopped (.refl _)
  · rw [testGradient_of_not_le orthogonal]
    by_cases orthogonal' : (s.tested tall c' norms).gnorm ≤ c'.gtol
    · rw [testGradient_of_le orthogonal', same]
      exact .passed (.refl _)
    · -- Both go on, with the scale factors raised alike.
      rw [testGradient_of_not_le orthogonal', same]
      simp only [raisedDiag, alike.scaling]
      exact .together _

theorem linearize_abreast (alike : c'.SteersLike c) (s : State p) :
    Stage.Abreast (s.linearize tall c) (s.linearize tall c') := by
  have taken : s.differentiate c' = s.differentiate c := by
    rw [differentiate, differentiate, alike.epsfcn]
  cases failure : (s.differentiate c).failure with
  | some e =>
    rw [linearize_of_failure failure, linearize_of_failure (taken ▸ failure), taken]
    exact .together _
  | none =>
    rw [linearize_of_success failure, linearize_of_success (taken ▸ failure), taken]
    exact testGradient_abreast alike _ _

/-- The step that is tried does not depend on the configuration. -/
theorem attempt_abreast (c c' : Config α) (s : State p) :
    Stage.Abreast (s.attempt tall c) (s.attempt tall c') := by
  cases failure : (s.proposed tall).evaluateTrial.2 with
  | some e =>
    rw [attempt_of_failure failure, attempt_of_failure failure]
    exact .together _
  | none =>
    rw [attempt_of_success failure, attempt_of_success failure]
    cases ends : (s.tried tall).verdict c (s.trialReduction tall) with
    | some info =>
      cases (s.tried tall).verdict c' (s.trialReduction tall) with
      | some info' => exact .stopped (.refl _)
      | none =>
        dsimp only
        split
        · exact .stopped (.refl _)
        · exact .stopped (.refl _)
    | none =>
      cases (s.tried tall).verdict c' (s.trialReduction tall) with
      | some info' =>
        dsimp only
        split
        · exact .passed (.refl _)
        · exact .passed (.refl _)
      | none => exact .together _

end State

theorem Stage.next_abreast {p : Problem α} (tall : p.parameterCount ≤ p.residualCount)
    {c c' : Config α} (alike : c'.SteersLike c) (stage stage' : Stage p)
    (abreast : Abreast stage stage') : Abreast (stage.next tall c) (stage'.next tall c') := by
  cases abreast with
  | together =>
    cases stage with
    | linearize s => exact s.linearize_abreast alike
    | attempt s => exact s.attempt_abreast c c'
    | stopped info s => exact .together _
  | stopped kept => exact .stopped (kept.trans (next_keeps tall c' stage'))
  | passed kept => exact .passed (kept.trans (next_keeps tall c stage))

/-! ### Budgets -/

/-- Two stages of solves of which the second has the larger budget: they are the same, unless the
first solve has stopped because its budget was spent. -/
inductive Stage.Outlasted {p : Problem α} : Stage p → Stage p → Prop where
  | same (stage : Stage p) : Outlasted stage stage
  | spent (s : State p) (stage : Stage p) : Outlasted (stopped .maxfevReached s) stage

variable {p : Problem α} {c : Config α} {maxfev : Option Nat}

/-- A larger budget changes the verdict on a trial only where the smaller one is spent. -/
theorem State.verdict_of_budget_le
    (le : c.budget p.parameterCount ≤ { c with maxfev }.budget p.parameterCount)
    (r : Reduction α) (s : State p) :
    s.verdict c r = some .maxfevReached ∨ s.verdict { c with maxfev } r = s.verdict c r := by
  -- Convergence does not depend on the budget, and neither do the other reasons to give up.
  change (convergence c r s.region.delta s.xnorm).or _ = _ ∨
    (convergence c r s.region.delta s.xnorm).or _ = (convergence c r s.region.delta s.xnorm).or _
  cases convergence c r s.region.delta s.xnorm with
  | some info => exact .inr rfl
  | none =>
    rw [Option.none_or, Option.none_or]
    grind [exhaustion]

theorem Stage.next_outlasted (tall : p.parameterCount ≤ p.residualCount)
    (le : c.budget p.parameterCount ≤ { c with maxfev }.budget p.parameterCount)
    (stage stage' : Stage p) (outlasted : Outlasted stage stage') :
    Outlasted (stage.next tall c) (stage'.next tall { c with maxfev }) := by
  cases outlasted with
  | spent s => exact .spent s _
  | same =>
    cases stage with
    | linearize s => exact .same _
    | attempt s =>
      simp only [next]
      cases failure : (s.proposed tall).evaluateTrial.2 with
      | some e =>
        rw [State.attempt_of_failure failure, State.attempt_of_failure failure]
        exact .same _
      | none =>
        rw [State.attempt_of_success failure, State.attempt_of_success failure]
        rcases State.verdict_of_budget_le le (s.trialReduction tall) (s.tried tall) with
          spent | same
        · rw [spent]
          exact .spent _ _
        · rw [same]
          exact .same _
    | stopped info s => exact .same _

/-- Of two accepted solves from one start, whose configurations differ only in the tolerances, the
budget and what to report, one evaluates the points of the other and perhaps more. If they differ in
the budget alone and the smaller one is not what ended its solve, then the two solves are equal in
all they leave behind. -/
theorem solve_comparable {p : Problem α} {c c' : Config α} (alike : c'.SteersLike c)
    {x residuals diag : Array α} {w : Workspace α} (h : Accepted p c x residuals diag w)
    (h' : Accepted p c' x residuals diag w) :
    let run := solve p c x residuals diag w
    let run' := solve p c' x residuals diag w
    (points run.calls <+: points run'.calls ∨ points run'.calls <+: points run.calls) ∧
    (c' = { c with maxfev := c'.maxfev } → c.budget x.size ≤ c'.budget x.size →
      run.outcome.info ≠ .maxfevReached →
        run'.outcome = run.outcome ∧ run'.x = run.x ∧ run'.residuals = run.residuals ∧
        run'.diag = run.diag ∧ run'.workspace = run.workspace ∧ run'.calls = run.calls) := by
  intro run run'
  obtain ⟨info, s, stopped, ended⟩ := solve_stops h
  obtain ⟨info', s', stopped', ended'⟩ := solve_stops h'
  have size : x.size = p.parameterCount := h.size_x
  have start : State.start c' h'.given.x h'.given.residuals h'.given.diag h'.given.buffers =
      State.start c h.given.x h.given.residuals h.given.diag h.given.buffers := by
    simp only [State.start, State.opened, alike.factor]
    rfl
  rw [start] at stopped'
  generalize State.start c h.given.x h.given.residuals h.given.diag h.given.buffers = first
    at stopped stopped'
  -- Both solves have come to rest after the larger of the numbers of steps they are given.
  obtain ⟨steps, rest, rest'⟩ : ∃ steps, first.run h.tall c steps = .stopped info s ∧
      first.run h.tall c' steps = .stopped info' s' :=
    ⟨_, Stage.run_of_le stopped (Nat.le_max_left ..),
      Stage.run_of_le stopped' (Nat.le_max_right ..)⟩
  rw [show run = .ended info s from ended, show run' = .ended info' s' from ended']
  constructor
  · have abreast := Stage.run_related (Stage.next_abreast h.tall alike) steps (.together first)
    rw [rest, rest'] at abreast
    exact abreast.keeps.imp Keeps.points_isPrefix Keeps.points_isPrefix
  · intro only le unspent
    obtain ⟨maxfev, rfl⟩ : ∃ maxfev, c' = { c with maxfev } := ⟨_, only⟩
    rw [size] at le
    have outlasted := Stage.run_related (Stage.next_outlasted h.tall le) steps (.same first)
    rw [rest, rest'] at outlasted
    cases outlasted with
    | same => exact ⟨rfl, rfl, rfl, rfl, rfl, rfl⟩
    | spent => exact absurd rfl unspent

/-- The one residual `x - 2`, which a solve from zero removes with its first step. -/
def shifted : Problem Float :=
  Formula.system #[[.parameter 0, .constant 2, .binary .sub]] 1

/-- The solve of `shifted` from zero in new buffers. -/
def solveShifted (c : Config Float) : Run shifted :=
  solve shifted c #[0] #[0] #[1] (.new 1 1)

/-- A solve that stops one evaluation before another with stricter tolerances, and one that
converges when its budget is just spent, as it does with a larger one. -/
theorem solve_comparable_shifted :
    let strict : Config Float := { limited 4 with ftol := 0, xtol := 0 }
    points (solveRootTwo (limited 3)).calls <+: points (solveRootTwo strict).calls ∧
      (solveRootTwo (limited 3)).calls.size < (solveRootTwo strict).calls.size ∧
      (solveShifted (limited 4)).outcome.info = .gtolReached ∧
      (solveShifted (limited 4)).outcome.nfev = 4 ∧
      (solveShifted (limited 9)).x = (solveShifted (limited 4)).x := by
  intro strict
  have rootTwo : (solveRootTwo (limited 3)).outcome.info = .maxfevReached ∧
      (solveRootTwo strict).outcome.info = .maxfevReached ∧
      (solveRootTwo (limited 3)).calls.size < (solveRootTwo strict).calls.size := by
    decide +kernel
  have shifted : (solveShifted (limited 4)).outcome.info = .gtolReached ∧
      (solveShifted (limited 9)).outcome.info = .gtolReached ∧
      (solveShifted (limited 4)).outcome.nfev = 4 := by
    decide +kernel
  obtain ⟨brief, long, shorter⟩ := rootTwo
  obtain ⟨four, nine, nfev⟩ := shifted
  have comparable := (@solve_comparable _ _ _ (limited 3) strict ⟨rfl, rfl, rfl⟩ _ _ _ _
    (accepted_of_info_ne fun refused => by cases brief.symm.trans refused)
    (accepted_of_info_ne fun refused => by cases long.symm.trans refused)).1
  have unspent := (@solve_comparable _ _ _ (limited 4) (limited 9) ⟨rfl, rfl, rfl⟩ _ _ _ _
    (accepted_of_info_ne fun refused => by cases four.symm.trans refused)
    (accepted_of_info_ne fun refused => by cases nine.symm.trans refused)).2
  refine ⟨?_, shorter, four, nfev, ?_⟩
  · rcases comparable with before | after
    · exact before
    · -- The longer run cannot be the one that stopped first.
      have le := after.length_le
      simp only [points, List.length_map, Array.length_toList] at le
      exact absurd shorter (Nat.not_lt.mpr le)
  · exact (unspent rfl (by decide) fun spent => by cases four.symm.trans spent).2.1

end LeastSquares
