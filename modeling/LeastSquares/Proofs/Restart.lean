import LeastSquares.Proofs.Reuse
import LeastSquares.Proofs.Stationary

/-!
# Starting again where a solve stopped

Whether an iterate is found stationary depends on the iterate, its residuals and the Jacobian taken
there, and on nothing else that a solve has gathered on its way: not on the scaling, the region, the
damping or what its buffers hold. A solve that stopped at a stationary iterate therefore stops there
again, at once, when it is started from it.
-/
namespace LeastSquares

variable {α : Type}

/-- The residuals are the function `f` of the parameters: no evaluation fails, and each overwrites
the whole buffer with what `f` gives at its point. -/
def Problem.Evaluates (p : Problem α)
    (f : Vector α p.parameterCount → Vector α p.residualCount) : Prop :=
  ∀ (number : Nat) (point : Vector α p.parameterCount) (buffer : Vector α p.residualCount),
    p.eval number point buffer = ⟨f point, none⟩

theorem Formula.system_evaluates (formulas : Array Formula) (n : Nat) :
    (system formulas n).Evaluates fun point =>
      formulas.toVector.map (·.value point.toArray 0) := by
  intro _ point buffer
  have values : Vector.ofFn (fun i : Fin formulas.size => formulas[i].value point.toArray 0) =
      formulas.toVector.map (·.value point.toArray 0) := by
    ext
    simp
  exact congrArg (Response.mk · none) ((overwriteHead_eq_ofFn buffer _).trans values)

variable [Scalar α] {p : Problem α} {f : Vector α p.parameterCount → Vector α p.residualCount}

/-! ### Jacobians at one point -/

namespace Differencing

/-- Two Jacobians in progress that are taken at one point and agree in their first `k` columns. -/
structure Alike (k : Nat) (d d' : Differencing α p.residualCount p.parameterCount) : Prop where
  intact : d.failure = none
  intact' : d'.failure = none
  x : d'.x = d.x
  filled (j : Fin p.parameterCount) : j < k → d'.jacobian.get j = d.jacobian.get j

theorem probe_evaluates (evaluates : p.Evaluates f) (scale : α) (j : Fin p.parameterCount)
    (d : Differencing α p.residualCount p.parameterCount) :
    (d.probe p scale j).response = ⟨f (d.moved scale j), none⟩ :=
  evaluates ..

theorem column_alike (evaluates : p.Evaluates f) {scale : α} {residuals : Vector α p.residualCount}
    (j : Fin p.parameterCount) {d d' : Differencing α p.residualCount p.parameterCount}
    (h : Alike j d d') :
    Alike (j + 1) (d.column p scale residuals j) (d'.column p scale residuals j) := by
  have moved : d'.moved scale j = d.moved scale j := by
    rw [Differencing.moved, Differencing.moved, h.x]
  have response : (d'.probe p scale j).response = (d.probe p scale j).response := by
    rw [probe_evaluates evaluates, probe_evaluates evaluates, moved]
  have success := congrArg Response.failure (probe_evaluates evaluates scale j d)
  rw [column_of_success h.intact success,
    column_of_success h.intact' ((congrArg Response.failure response).trans success)]
  refine ⟨h.intact, h.intact', ?_, ?_⟩
  · simp only [probe, Problem.call, moved, h.x]
  · intro i done
    rw [get_overwriteAt, get_overwriteAt]
    split
    · rw [overwrite_eq_ofFn, overwrite_eq_ofFn, response, h.x]
    next other => exact h.filled i (by omega)

/-- Two Jacobians taken at one point, by whichever evaluations and into whatever buffers, are the
same. -/
theorem run_evaluates (evaluates : p.Evaluates f) {epsfcn : α}
    {residuals : Vector α p.residualCount}
    {d d' : Differencing α p.residualCount p.parameterCount} (intact : d.failure = none)
    (intact' : d'.failure = none) (x : d'.x = d.x) :
    (d.run p epsfcn residuals).failure = none ∧
      (d'.run p epsfcn residuals).jacobian = (d.run p epsfcn residuals).jacobian := by
  have alike : Alike p.parameterCount (d.run p epsfcn residuals) (d'.run p epsfcn residuals) :=
    foldl_related Alike ⟨intact, intact', x, nofun⟩ fun j _ _ now => column_alike evaluates j now
  exact ⟨alike.intact, eq_of_get_eq fun j => alike.filled j j.isLt⟩

end Differencing

/-! ### Linearizations at one iterate -/

namespace State

variable {tall : p.parameterCount ≤ p.residualCount} {c c' : Config α}

/-- The residuals at hand are those at the iterate. -/
theorem Recorded.evaluated {s : State p} (h : s.Recorded) (evaluates : p.Evaluates f) :
    s.residuals = f s.x := by
  obtain ⟨i, call, ⟨found, -⟩, point, buffer⟩ := h.current
  obtain ⟨before, response⟩ := h.genuine i call found
  rw [← buffer, response, evaluates, point]

/-- All that a linearization can tell of how a solve got to its iterate is the iterate itself. -/
theorem factored_congr (evaluates : p.Evaluates f) {s s' : State p} (x : s'.x = s.x)
    (residuals : s'.residuals = s.residuals) (epsfcn : c'.epsfcn = c.epsfcn) :
    (s.differentiate c).failure = none ∧ s'.factored c' = s.factored c := by
  have taken : (s.unfilled.run p c.epsfcn s.residuals).failure = none ∧
      (s'.unfilled.run p c.epsfcn s.residuals).jacobian =
        (s.unfilled.run p c.epsfcn s.residuals).jacobian :=
    Differencing.run_evaluates evaluates rfl rfl x
  refine ⟨taken.1, Factor.compute_congr ?_⟩
  change (s'.unfilled.run p c'.epsfcn s'.residuals).jacobian =
    (s.unfilled.run p c.epsfcn s.residuals).jacobian
  rw [residuals, epsfcn]
  exact taken.2

end State

/-! ### Solves -/

/-- An accepted solve begins with a linearization at its starting point. -/
theorem Accepted.first_eq {c : Config α} {x residuals diag : Array α} {w : Workspace α}
    (h : Accepted p c x residuals diag w) (evaluates : p.Evaluates f) :
    ∃ s : State p, h.first = .linearize s ∧ s.Recorded ∧ s.x = h.given.x ∧ s.nfev = 1 ∧
      s.iterations = 0 := by
  have success : (p.call #[] .start h.given.x h.given.residuals).response.failure = none :=
    congrArg Response.failure (evaluates ..)
  have begins := h.first_of_success success
  have recorded : h.first.Recorded := State.start_recorded ..
  rw [begins] at recorded
  exact ⟨_, begins, recorded, rfl, rfl, rfl⟩

/-- A solve that is started where another one found its iterate stationary finds it stationary, too,
with one evaluation there and one for each column of the Jacobian: it hands back the same iterate,
residuals and norm, bit for bit. The two have to agree in the tolerance on the cosine and in the
difference step. All else may differ: the scaling, the budget, the first radius, the tolerances on
reductions and steps, and the contents of every buffer. -/
theorem solve_restarted (evaluates : p.Evaluates f) {c c' : Config α} (gtol : c'.gtol = c.gtol)
    (epsfcn : c'.epsfcn = c.epsfcn) {x residuals residuals' diag diag' : Array α}
    {w w' : Workspace α}
    (stationary : (solve p c x residuals diag w).outcome.info = .gtolReached)
    (h' : Accepted p c' (solve p c x residuals diag w).x residuals' diag' w') :
    let run := solve p c x residuals diag w
    let again := solve p c' run.x residuals' diag' w'
    again.outcome = ⟨.gtolReached, p.parameterCount + 1, 0, run.outcome.fnorm⟩ ∧
      again.x = run.x ∧ again.residuals = run.residuals := by
  have h : Accepted p c x residuals diag w := by
    apply accepted_of_info_ne
    rw [stationary]
    exact nofun
  obtain ⟨k, s, info, t, last, success, -, converged, ended⟩ :=
    solve_holds h (congrArg Termination.isAbort stationary)
  have reached : info = .gtolReached := by
    rw [ended] at stationary
    exact stationary
  subst reached
  -- The first solve stops in `t`, right after it has linearized in `s`.
  have recorded : s.Recorded := by
    have now : (h.first.run h.tall c k).Recorded := Stage.run_recorded k (State.start_recorded ..)
    rwa [last.here] at now
  have orthogonal := (State.gradientNorm_le_of_linearize success (converged rfl)).2
  obtain ⟨t₁, stopped, x₁, residuals₁, fnorm₁, -, -⟩ :=
    State.linearize_of_stationary recorded success orthogonal
  obtain rfl : t₁ = t := by
    cases stopped.symm.trans (converged rfl)
    rfl
  -- The second one linearizes in `s'`, at the same iterate.
  obtain ⟨s', begins, recorded', start, nfev, iterations⟩ := h'.first_eq evaluates
  have point : s'.x = s.x := by
    rw [start, ← x₁]
    exact Vector.toArray_inj.mp (congrArg Run.x ended)
  have values : s'.residuals = s.residuals := by
    rw [recorded'.evaluated evaluates, recorded.evaluated evaluates, point]
  have size : s'.fnorm = s.fnorm := by
    rw [recorded'.fnorm, recorded.fnorm, values]
  obtain ⟨-, factored⟩ := State.factored_congr evaluates point values epsfcn
  have success' : (s'.differentiate c').failure = none :=
    (State.factored_congr evaluates rfl rfl rfl).1
  rw [← factored, ← values, ← size, ← gtol] at orthogonal
  obtain ⟨t', stopped', x', residuals', fnorm', nfev', iterations'⟩ :=
    State.linearize_of_stationary recorded' success' orthogonal
  have stops : h'.first.run h'.tall c' 1 = .stopped .gtolReached t' := by
    rw [begins]
    exact stopped'
  have ended' := h'.solve_eq_ended stops
  intro run again
  change again = _ at ended'
  change run = _ at ended
  rw [ended', ended]
  refine ⟨?_, ?_, ?_⟩
  · simp only [Run.ended, State.outcome, nfev', nfev, iterations', iterations, fnorm', size, fnorm₁,
      Nat.add_comm]
  · exact congrArg Vector.toArray (x'.trans (point.trans x₁.symm))
  · exact congrArg Vector.toArray (residuals'.trans (values.trans residuals₁.symm))

/-- Another radius and the smallest budget, with the tolerance on the cosine kept. -/
def brief : Config Float :=
  { loose with maxfev := some 1, factor := 3 }

/-- The solve of `apart` once more, from where it stopped and in the buffers it has used. -/
def solveApartAgain : Run apart :=
  solve apart brief solveApart.x #[1, 2] #[7] solveApart.workspace

/-- The first solve takes steps before it stops, the second one none. -/
theorem solve_restarted_apart :
    solveApart.outcome.info = .gtolReached ∧ 0 < solveApart.outcome.iterations ∧
      solveApartAgain.outcome = ⟨.gtolReached, 2, 0, solveApart.outcome.fnorm⟩ ∧
      solveApartAgain.x = solveApart.x ∧ solveApartAgain.residuals = solveApart.residuals := by
  have stops : solveApart.outcome.info = .gtolReached ∧ 0 < solveApart.outcome.iterations ∧
      solveApartAgain.outcome.info ≠ .invalidInput := by
    decide +kernel
  obtain ⟨info, moves, accepted⟩ := stops
  have fixed := @solve_restarted Float _ apart _ (Formula.system_evaluates _ 1) loose brief rfl rfl
    #[5] #[0, 0] #[1, 2] #[1] #[7] (.new 2 1) solveApart.workspace info
    (accepted_of_info_ne accepted)
  exact ⟨info, moves, fixed⟩

end LeastSquares
