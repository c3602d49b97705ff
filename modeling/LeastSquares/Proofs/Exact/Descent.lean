import Mathlib
import LeastSquares.Proofs.Iterates
import LeastSquares.Proofs.Exact.Single

/-!
# Descent

A step is taken if the reduction it achieves is a fixed part of the reduction predicted, and the
latter is a sum of squares. Without errors of rounding the residuals therefore shrink with every
step that is taken, and no iterate is visited twice.
-/
namespace LeastSquares

/-! ### Judging a step -/

namespace Reduction

variable {n : Nat} {current trial length par : ℝ} {image : Vector ℝ n}

theorem predicted_nonneg : 0 ≤ (measure current trial length par image).predicted := by
  change 0 ≤ _ * _ + _ * _ / (0.5 : ℝ)
  exact add_nonneg (mul_self_nonneg _) (div_nonneg (mul_self_nonneg _) (by norm_num))

theorem slope_nonpos : (measure current trial length par image).slope ≤ 0 :=
  neg_nonpos.mpr (add_nonneg (mul_self_nonneg _) (mul_self_nonneg _))

theorem ratio_eq : (measure current trial length par image).ratio =
    (measure current trial length par image).actual /
      (measure current trial length par image).predicted := by
  by_cases zero : (measure current trial length par image).predicted = 0
  · rw [zero, div_zero]
    exact if_neg (by rw [bne_iff_ne]; exact not_not_intro zero)
  · exact if_pos (by rw [bne_iff_ne]; exact zero)

/-- A step that is taken achieves a reduction. -/
theorem actual_pos_of_acceptable (good : (measure current trial length par image).acceptable) :
    0 < (measure current trial length par image).actual := by
  have least : (1e-4 : ℝ) ≤ (measure current trial length par image).ratio := of_decide_eq_true good
  rw [ratio_eq] at least
  by_contra growth
  have poor := div_nonpos_of_nonpos_of_nonneg (not_lt.mp growth)
    (@predicted_nonneg n current trial length par image)
  have positive : (0 : ℝ) < 1e-4 := by norm_num
  linarith

theorem lt_of_acceptable (nonneg : 0 ≤ trial)
    (good : (measure current trial length par image).acceptable) : trial < current := by
  have reduced := actual_pos_of_acceptable good
  change 0 < (if (0.1 : ℝ) * trial < current then 1 - trial / current * (trial / current) else -1)
    at reduced
  split at reduced
  next bounded =>
    have positive : 0 < current := lt_of_le_of_lt (by positivity) bounded
    by_contra grown
    have quotient : 1 ≤ trial / current := (one_le_div positive).mpr (not_lt.mp grown)
    nlinarith
  · norm_num at reduced

end Reduction

namespace State

variable {p : Problem ℝ} {tall : p.parameterCount ≤ p.residualCount}

/-- A step that is taken shrinks the residuals. -/
theorem tried_fnorm_lt {s : State p} (good : (s.trialReduction tall).acceptable) :
    (s.tried tall).fnorm < s.fnorm := by
  have taken : (s.tried tall).fnorm = norm (s.proposed tall).evaluateTrial.1.buffers.trial.toList :=
    congrArg State.fnorm (if_pos good)
  have before : (s.proposed tall).evaluateTrial.1.fnorm = s.fnorm := (proposed_same tall s).fnorm
  rw [taken, ← before]
  exact Reduction.lt_of_acceptable (norm_nonneg _) good

end State

/-! ### Runs -/

/-- The residuals are a function of the parameters: every evaluation that succeeds at a point leaves
the same residuals. -/
def Problem.Computes (p : Problem ℝ)
    (f : Vector ℝ p.parameterCount → Vector ℝ p.residualCount) : Prop :=
  ∀ (number : Nat) (point : Vector ℝ p.parameterCount) (buffer : Vector ℝ p.residualCount),
    (p.eval number point buffer).failure = none → (p.eval number point buffer).buffer = f point

variable {p : Problem ℝ} {f : Vector ℝ p.parameterCount → Vector ℝ p.residualCount}

/-- The residuals at hand are those at the iterate. -/
theorem State.Recorded.residuals_eq {s : State p} (h : s.Recorded) (computes : p.Computes f) :
    s.residuals = f s.x := by
  obtain ⟨i, call, ⟨found, -⟩, point, buffer⟩ := h.current
  obtain ⟨before, response⟩ := h.genuine i call found
  have success := h.succeeded call (Array.mem_of_getElem? found)
  rw [response] at success buffer
  rw [← buffer, computes _ _ _ success, point]

theorem State.Recorded.fnorm_eq {s : State p} (h : s.Recorded) (computes : p.Computes f) :
    s.fnorm = norm (f s.x).toList := by
  rw [h.fnorm, h.residuals_eq computes]

namespace Stage

variable {tall : p.parameterCount ≤ p.residualCount} {c : Config ℝ}

/-- The norms of the residuals at the iterates. -/
noncomputable def norms (f : Vector ℝ p.parameterCount → Vector ℝ p.residualCount)
    (stage : Stage p) : List ℝ :=
  stage.iterates.map fun point => norm (f point).toList

/-- The residuals have shrunk with every step so far. -/
def Descends (f : Vector ℝ p.parameterCount → Vector ℝ p.residualCount) (stage : Stage p) : Prop :=
  (stage.norms f).IsChain (· > ·)

theorem next_descends (computes : p.Computes f) {stage : Stage p} (recorded : stage.Recorded)
    (h : stage.Descends f) : (stage.next tall c).Descends f := by
  rcases @next_iterates _ _ _ tall c stage recorded with same | ⟨s, rfl, success, good, longer⟩
  · rwa [Descends, norms, same]
  · -- The norm before the trial is that of the last iterate so far.
    have here : ((attempt s).norms f).getLast? = some s.fnorm := by
      rw [norms, List.getLast?_map, recorded.fnorm_eq computes]
      exact congrArg _ recorded.getLast?_iterates
    have shrunk : norm (f (s.tried tall).x).toList < s.fnorm := by
      rw [← (State.tried_recorded recorded success).fnorm_eq computes]
      exact State.tried_fnorm_lt good
    rw [Descends, norms, longer, List.map_append]
    refine List.isChain_append.mpr ⟨h, List.isChain_singleton _, ?_⟩
    intro last isLast new isNew
    rw [← norms, here] at isLast
    cases isLast
    cases isNew
    exact shrunk

theorem run_descends (computes : p.Computes f) (steps : Nat) {stage : Stage p}
    (recorded : stage.Recorded) (h : stage.Descends f) :
    (stage.run tall c steps).Recorded ∧ (stage.run tall c steps).Descends f :=
  @run_invariant _ _ _ _ _ (fun now => now.Recorded ∧ now.Descends f)
    (fun _ now => ⟨next_recorded now.1, next_descends computes now.1 now.2⟩) steps _ ⟨recorded, h⟩

namespace Descends

variable {stage : Stage p} (h : stage.Descends f)
include h

theorem pairwise : (stage.norms f).Pairwise (· > ·) :=
  List.isChain_iff_pairwise.mp h

theorem nodup : stage.iterates.Nodup := by
  refine (List.pairwise_map.mp h.pairwise).imp ?_
  rintro first second smaller rfl
  exact lt_irrefl _ smaller

/-- The residuals are not larger than at the start. -/
theorem last_le {first last : Vector ℝ p.parameterCount} (start : [first] <+: stage.iterates)
    (current : stage.iterates.getLast? = some last) :
    norm (f last).toList ≤ norm (f first).toList := by
  obtain ⟨later, path⟩ := start
  have shrinking := h.pairwise
  have member := List.mem_of_getLast? current
  rw [norms, ← path] at shrinking
  rw [← path] at member
  rcases List.mem_cons.mp member with same | after
  · rw [same]
  · exact le_of_lt ((List.pairwise_cons.mp shrinking).1 _ (List.mem_map_of_mem after))

end Descends

end Stage

/-- Without errors of rounding every step that is taken shrinks the residuals. The norms at the
iterates decrease strictly, whichever way the solve ends, so that no iterate is visited twice; and a
solve that is not aborted hands back the last iterate, whose norm is at most that at the start. -/
theorem solve_descends (computes : p.Computes f) {c : Config ℝ} {x residuals diag : Array ℝ}
    {w : Workspace ℝ} (h : Accepted p c x residuals diag w) :
    let run := solve p c x residuals diag w
    let visited := iterates run.events run.calls
    (∀ k s, h.first.run h.tall c k = .attempt s → (s.proposed h.tall).evaluateTrial.2 = none →
      (s.trialReduction h.tall).acceptable →
        s.fnorm = norm (f s.x).toList ∧
        (s.tried h.tall).fnorm = norm (f (s.tried h.tall).x).toList ∧
        (s.tried h.tall).fnorm < s.fnorm) ∧
    visited.head? = some ⟨x, h.size_x⟩ ∧
    (visited.map fun point => norm (f point).toList).Pairwise (· > ·) ∧
    visited.Nodup ∧
    (run.outcome.info.isAbort = false → ∃ last, visited.getLast? = some last ∧
      run.x = last.toArray ∧ run.outcome.fnorm = norm (f last).toList ∧
      run.outcome.fnorm ≤ norm (f ⟨x, h.size_x⟩).toList) := by
  have recorded : h.first.Recorded := State.start_recorded ..
  have begins : h.first.iterates = [⟨x, h.size_x⟩] := State.start_iterates ..
  have descends : h.first.Descends f := by
    rw [Stage.Descends, Stage.norms, begins]
    exact List.isChain_singleton _
  obtain ⟨info, t, stopped, ended⟩ := solve_stops h
  have result := @Stage.run_descends p f h.tall c computes
    (stepBound (c.budget p.parameterCount)) h.first recorded descends
  have grown := @Stage.run_iterates _ _ p h.tall c
    (stepBound (c.budget p.parameterCount)) h.first recorded
  rw [Accepted.first, stopped] at result
  rw [begins, Accepted.first, stopped] at grown
  obtain ⟨final, chain⟩ := result
  rw [ended]
  refine ⟨?_, List.singleton_prefix_iff_head?_eq_some.mp grown, chain.pairwise, chain.nodup, ?_⟩
  · intro k s here success good
    have now := (@Stage.run_descends p f h.tall c computes k h.first recorded descends).1
    rw [here] at now
    exact ⟨now.fnorm_eq computes, (State.tried_recorded now success).fnorm_eq computes,
      State.tried_fnorm_lt good⟩
  · intro completed
    have final : t.Recorded := by
      rwa [Stage.Recorded, show info.isAbort = false from completed] at final
    have last := final.getLast?_iterates
    have fnorm := final.fnorm_eq computes
    exact ⟨t.x, last, rfl, fnorm, fnorm.trans_le (chain.last_le grown last)⟩

/-- The residual is the parameter itself. -/
noncomputable def identity : Problem ℝ := .scalar fun _ x => x

theorem identity_computes : identity.Computes id := by
  intro number point buffer _
  refine (congrArg Response.buffer (Problem.eval_scalar _ number point buffer)).trans ?_
  exact eq_of_get_eq fun i : Fin 1 => by rw [Subsingleton.elim i 0]; rfl

theorem solve_descends_identity :
    let run := solve identity .default #[1] #[0] #[1] (.new 1 1)
    identity.Computes id ∧ (iterates run.events run.calls).head? = some #v[1] ∧
      (iterates run.events run.calls).Nodup := by
  intro run
  obtain ⟨-, start, -, nodup, -⟩ := solve_descends identity_computes
    (Problem.scalar_accepted _ 1)
  exact ⟨identity_computes, start, nodup⟩

/-- A forward difference moves the residual. -/
theorem identity_moves {c : Config ℝ} {s : State identity} {x : ℝ}
    (point : s.x = (#v[x] : Vector ℝ 1)) (buffer : s.residuals = (#v[x] : Vector ℝ 1)) :
    s.x.get (0 : Fin 1) + differenceStep (differenceScale c.epsfcn) (s.x.get (0 : Fin 1)) ≠
      s.residuals.get (0 : Fin 1) := by
  have step := differenceStep_ne_zero (differenceScale_ne_zero c.epsfcn) (s.x.get (0 : Fin 1))
  rw [point] at step ⊢
  rw [buffer]
  exact fun same => step (add_eq_left.mp same)

theorem identity_slope {c : Config ℝ} {s : State identity} {x : ℝ}
    (point : s.x = (#v[x] : Vector ℝ 1)) (buffer : s.residuals = (#v[x] : Vector ℝ 1)) :
    (s.differentiate c).jacobian.entry (0 : Fin 1) (0 : Fin 1) ≠ 0 := by
  obtain ⟨-, -, quotient⟩ := differentiate_scalar c s
  refine ne_of_eq_of_ne quotient (div_ne_zero (sub_ne_zero.mpr (identity_moves point buffer)) ?_)
  exact differenceStep_ne_zero (differenceScale_ne_zero c.epsfcn) _

end LeastSquares
