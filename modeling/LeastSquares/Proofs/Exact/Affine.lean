import LeastSquares.Proofs.Exact.Cosines
import LeastSquares.Proofs.Exact.NormalEquations

/-!
# Affine residuals

Differences of affine residuals are their derivatives, and the linear model is the problem itself.
Without errors of rounding every trial is therefore taken, and one that is not damped leads to a
least-squares solution.
-/
namespace LeastSquares

open Matrix

variable {p : Problem ℝ} {a : Matrix (Fin p.residualCount) (Fin p.parameterCount) ℝ}
  {b : Fin p.residualCount → ℝ}

/-- The residuals at `x` are `b + A x`, and no evaluation fails. -/
def Problem.Affine (p : Problem ℝ) (a : Matrix (Fin p.residualCount) (Fin p.parameterCount) ℝ)
    (b : Fin p.residualCount → ℝ) : Prop :=
  ∀ (number : Nat) (point : Vector ℝ p.parameterCount) (buffer : Vector ℝ p.residualCount),
    (p.eval number point buffer).failure = none ∧
      (p.eval number point buffer).buffer.get = b + a *ᵥ point.get

/-- The sum of squares of the residuals is least at `x`. -/
def Minimizes (a : Matrix (Fin p.residualCount) (Fin p.parameterCount) ℝ)
    (b : Fin p.residualCount → ℝ) (x : Fin p.parameterCount → ℝ) : Prop :=
  ∀ y, (b + a *ᵥ x) ⬝ᵥ (b + a *ᵥ x) ≤ (b + a *ᵥ y) ⬝ᵥ (b + a *ᵥ y)

/-- It is least where the gradient is zero. -/
theorem minimizes_of_gradient {x : Fin p.parameterCount → ℝ} (flat : aᵀ *ᵥ (b + a *ᵥ x) = 0) :
    Minimizes a b x := by
  intro y
  obtain ⟨r, r_eq⟩ : ∃ r, r = b + a *ᵥ x := ⟨_, rfl⟩
  have moved : b + a *ᵥ y = r + a *ᵥ (y - x) := by
    rw [r_eq, mulVec_sub]
    abel
  rw [← r_eq] at flat ⊢
  have orthogonal : r ⬝ᵥ (a *ᵥ (y - x)) = 0 := by
    rw [dotProduct_mulVec, ← mulVec_transpose, flat, zero_dotProduct]
  have square : 0 ≤ (a *ᵥ (y - x)) ⬝ᵥ (a *ᵥ (y - x)) :=
    Finset.sum_nonneg fun i _ => mul_self_nonneg _
  rw [moved, add_dotProduct, dotProduct_add, dotProduct_add, dotProduct_comm (a *ᵥ (y - x)) r,
    orthogonal]
  linarith

/-! ### Differences -/

namespace Problem.Affine

variable (affine : p.Affine a b)
include affine

/-- A difference in one coordinate is a multiple of a column. -/
theorem column_success {scale : ℝ} (nonzero : scale ≠ 0) {residuals : Vector ℝ p.residualCount}
    (j : Fin p.parameterCount) {d : Differencing ℝ p.residualCount p.parameterCount}
    (here : residuals.get = b + a *ᵥ d.x.get) :
    (d.probe p scale j).response.failure = none ∧ ∀ i,
      ((d.probe p scale j).response.buffer.get i - residuals.get i) /
        differenceStep scale (d.x.get j) = a i j := by
  obtain ⟨success, buffer⟩ := affine (d.calls.size + 1) (d.moved scale j) d.buffer
  refine ⟨success, fun i => ?_⟩
  have moved : (d.moved scale j).get =
      d.x.get + Pi.single j (differenceStep scale (d.x.get j)) := by
    ext l
    rw [Differencing.moved, get_overwriteAt, Pi.add_apply, Pi.single_apply, eq_comm]
    split
    next same => rw [if_pos same.symm, same]
    next other => rw [if_neg fun same => other same.symm, add_zero]
  have value : (d.probe p scale j).response.buffer.get i =
      residuals.get i + a i j * differenceStep scale (d.x.get j) := by
    refine (congrFun buffer i).trans ?_
    rw [moved, here, mulVec_add, ← add_assoc, Pi.add_apply, mulVec_single]
    rfl
  rw [value, add_sub_cancel_left, mul_div_cancel_right₀ _ (differenceStep_ne_zero nonzero _)]

/-- Differences of affine residuals are exact. -/
theorem run_jacobian (epsfcn : ℝ) {residuals : Vector ℝ p.residualCount}
    {d : Differencing ℝ p.residualCount p.parameterCount} (intact : d.failure = none)
    (here : residuals.get = b + a *ᵥ d.x.get) :
    (d.run p epsfcn residuals).failure = none ∧ (d.run p epsfcn residuals).x = d.x ∧
      (d.run p epsfcn residuals).jacobian.matrix = a := by
  have filled : (d.run p epsfcn residuals).failure = none ∧ (d.run p epsfcn residuals).x = d.x ∧
      ∀ (j : Fin p.parameterCount) i, j.val < p.parameterCount →
        (d.run p epsfcn residuals).jacobian.entry i j = a i j := by
    refine foldl_invariant (fun k (done : Differencing ℝ p.residualCount p.parameterCount) =>
      done.failure = none ∧ done.x = d.x ∧
        ∀ (j : Fin p.parameterCount) i, j.val < k → done.jacobian.entry i j = a i j)
      ⟨intact, rfl, nofun⟩ ?_
    rintro k done ⟨intact, point, entries⟩
    obtain ⟨success, quotient⟩ := affine.column_success (differenceScale_ne_zero epsfcn) k
      (point ▸ here)
    refine ⟨?_, ?_, fun j i before => ?_⟩
    · rw [Differencing.column_of_success intact success]
      exact intact
    · rw [Differencing.column_of_success intact success]
      exact (overwriteAt_restore ..).trans point
    · rcases Nat.lt_succ_iff_lt_or_eq.mp before with earlier | same
      · rw [Differencing.column_of_success intact success, Columns.entry, get_overwriteAt,
          if_neg (by rintro rfl; omega)]
        exact entries j i earlier
      · obtain rfl : j = k := Fin.ext same
        rw [Differencing.entry_column intact success, quotient]
  obtain ⟨success, point, entries⟩ := filled
  exact ⟨success, point, Matrix.ext fun i j => entries j i j.isLt⟩

end Problem.Affine

/-! ### Trials -/

/-- A trial whose residuals have not grown achieves the difference of the squares. -/
theorem Reduction.actual_mul_sq {n : Nat} {current trial : ℝ} (positive : 0 < current)
    (less : trial ≤ current) (length par : ℝ) (image : Vector ℝ n) :
    (measure current trial length par image).actual * current ^ 2 = current ^ 2 - trial ^ 2 := by
  have bounded : 0.1 * trial < current := by
    by_contra large
    linarith [not_lt.mp large]
  have actual : (measure current trial length par image).actual =
      1 - trial / current * (trial / current) := if_pos bounded
  rw [actual]
  field_simp

/-- What is known of a state that is about to try a step: the factorization it holds is that of `a`,
with the residuals at hand. -/
def State.Modeled (tall : p.parameterCount ≤ p.residualCount)
    (a : Matrix (Fin p.residualCount) (Fin p.parameterCount) ℝ) (t : State p) : Prop :=
  ∃ f : Factor ℝ p.residualCount p.parameterCount,
    f.packed.matrix = a ∧ t.Holds tall (f.compute true) t.residuals

theorem State.proposed_point (tall : p.parameterCount ≤ p.residualCount) (t : State p) :
    (t.proposed tall).buffers.point.get = t.x.get + t.step tall := by
  have placed : (t.searchStep tall).placeStep.buffers.point.get = t.x.get + t.step tall :=
    funext fun _ => get_overwrite ..
  unfold proposed capRegion
  split
  · exact placed
  · exact placed

namespace Problem.Affine

variable {tall : p.parameterCount ≤ p.residualCount} {c : Config ℝ} {s t : State p}
  (affine : p.Affine a b)
include affine

theorem residuals_eq (recorded : s.Recorded) : s.residuals.get = b + a *ᵥ s.x.get := by
  have value (f : Fin p.residualCount → ℝ) : (Vector.ofFn f).get = f :=
    funext fun i => by rw [get_eq, Vector.getElem_ofFn]
  have computes : p.Computes fun x => .ofFn (b + a *ᵥ x.get) := by
    intro number point buffer _
    refine eq_of_get_eq fun i => ?_
    rw [value, (affine number point buffer).2]
  rw [recorded.residuals_eq computes, value]

/-- The trial finds what the linear model predicts. -/
theorem trial_residuals (recorded : t.Recorded) :
    (t.proposed tall).evaluateTrial.2 = none ∧
      (t.proposed tall).evaluateTrial.1.buffers.trial.get =
        t.residuals.get + a *ᵥ t.step tall := by
  obtain ⟨success, buffer⟩ := affine ((t.proposed tall).calls.size + 1)
    (t.proposed tall).buffers.point (t.proposed tall).buffers.trial
  refine ⟨success, Eq.trans buffer ?_⟩
  rw [State.proposed_point, mulVec_add, ← add_assoc, affine.residuals_eq recorded]

theorem trial_reduction (h : t.Armed tall) (recorded : t.Recorded) (modeled : t.Modeled tall a) :
    (t.trialReduction tall).actual = (t.trialReduction tall).predicted ∧
      (t.trialReduction tall).ratio = 1 ∧ (t.trialReduction tall).acceptable := by
  obtain ⟨f, exact, holds⟩ := modeled
  -- The residuals of the trial are those of the linear model, so both reductions have one square.
  obtain ⟨-, buffer⟩ := @trial_residuals p a b tall t affine recorded
  have positive := h.fnorm
  have some := h.predicted_pos holds
  have predicted := h.predicted holds
  set trial := norm (t.proposed tall).evaluateTrial.1.buffers.trial.toList with trial_eq
  have square : (t.trialReduction tall).predicted * t.fnorm ^ 2 = t.fnorm ^ 2 - trial ^ 2 := by
    rw [predicted, trial_eq, norm_sq, buffer, recorded.fnorm, norm_sq, exact]
  have less : trial ≤ t.fnorm := by
    refine le_of_sq_le_sq ?_ (le_of_lt positive)
    have product := mul_pos some (pow_pos positive 2)
    linarith
  have actual : (t.trialReduction tall).actual = (t.trialReduction tall).predicted := by
    refine mul_right_cancel₀ (pow_ne_zero 2 (ne_of_gt positive)) (Eq.trans ?_ square.symm)
    rw [State.trialReduction_eq]
    exact Reduction.actual_mul_sq positive less ..
  have quotient : (t.trialReduction tall).ratio =
      (t.trialReduction tall).actual / (t.trialReduction tall).predicted := by
    rw [State.trialReduction_eq]
    exact Reduction.ratio_eq
  have ratio : (t.trialReduction tall).ratio = 1 := by
    rw [quotient, actual, div_self (ne_of_gt some)]
  refine ⟨actual, ratio, decide_eq_true ?_⟩
  rw [ratio, Reduction.acceptRatio]
  norm_num

/-- A step that is not damped leads to a least-squares solution. -/
theorem trial_flat (h : t.Armed tall) (recorded : t.Recorded) (modeled : t.Modeled tall a)
    (undamped : (t.searchStep tall).region.par = 0) :
    aᵀ *ᵥ (b + a *ᵥ (t.tried tall).x.get) = 0 := by
  obtain ⟨f, exact, holds⟩ := modeled
  obtain ⟨-, -, good⟩ := affine.trial_reduction h recorded ⟨f, exact, holds⟩
  have point : (t.tried tall).x.get = t.x.get + t.step tall := by
    have taken : t.tried tall = ((t.proposed tall).evaluateTrial.1.judge tall _).1.accept :=
      if_pos good
    rw [taken, ← State.proposed_point]
    exact funext fun _ => get_overwrite ..
  have normal := h.normal holds
  rw [undamped, zero_smul, add_zero, ← mulVec_mulVec, affine.residuals_eq recorded, exact] at normal
  rw [point, State.step_eq, mulVec_add a, mulVec_neg, ← add_assoc, mulVec_add, mulVec_neg, normal,
    add_neg_cancel]

/-! ### Linearizations -/

theorem differentiate (c : Config ℝ) (recorded : s.Recorded) :
    (s.differentiate c).failure = none ∧ (s.differentiate c).x = s.x ∧
      (s.differentiate c).jacobian.matrix = a :=
  affine.run_jacobian c.epsfcn rfl (affine.residuals_eq recorded)

/-- A linearization stops or goes on with the iterate, the residuals and the counts it was given. -/
theorem linearize_cases (tall : p.parameterCount ≤ p.residualCount) (c : Config ℝ)
    (recorded : s.Recorded) :
    ∃ t : State p, t.x = s.x ∧ t.residuals = s.residuals ∧ t.iterations = s.iterations ∧
      trialNumbers t.calls = trialNumbers s.calls ∧
      (s.linearize tall c = t.finish .gtolReached ∨
        s.linearize tall c = .attempt t ∧ t.Modeled tall a) := by
  obtain ⟨success, point, jacobian⟩ := affine.differentiate c recorded
  have taken : (s.differentiate c).Recorded p s.x s.calls :=
    s.unfilled.run_recorded recorded.nfev recorded.genuine rfl recorded.succeeded
  rcases s.linearize_cases tall c with ⟨e, failure, -⟩ | ⟨-, t, same, next⟩
  · cases failure.symm.trans success
  · refine ⟨t, same.x.trans point, same.residuals, same.iterations,
      (congrArg trialNumbers same.calls).trans taken.trials, next.imp_right fun next => ⟨next, ?_⟩⟩
    have holds := @State.linearize_holds _ _ _ tall c s success
    rw [next] at holds
    refine ⟨s.unfactored (s.differentiate c), jacobian, ?_⟩
    rw [show t.residuals = s.residuals from same.residuals]
    exact holds

/-- Where the gradient is zero, a linearization stops and leaves the iterate. -/
theorem linearize_flat (tall : p.parameterCount ≤ p.residualCount) (gtol : 0 ≤ c.gtol)
    (recorded : s.Recorded) (flat : aᵀ *ᵥ (b + a *ᵥ s.x.get) = 0) :
    ∃ t, s.linearize tall c = .stopped .gtolReached t ∧ t.x = s.x := by
  obtain ⟨success, point, jacobian⟩ := affine.differentiate c recorded
  obtain ⟨computed, stops⟩ := @State.linearize_gnorm p tall c s success
  have zero : (s.linearize tall c).state.gnorm = 0 := by
    rw [computed, recorded.fnorm]
    by_cases nothing : norm s.residuals.toList = 0
    · rw [nothing, gradientNorm, if_pos (beq_iff_eq.mpr rfl)]
    · obtain ⟨-, none | ⟨l, -, cosine⟩⟩ :=
        (s.unfactored (s.differentiate c)).gradientNorm_spec tall nothing
      · exact none
      · refine cosine.symm.trans ?_
        have product : ((s.differentiate c).jacobian.get l).get ⬝ᵥ s.residuals.get = 0 := by
          rw [← affine.residuals_eq recorded, ← jacobian] at flat
          exact congrFun flat l
        change |((s.differentiate c).jacobian.get l).get ⬝ᵥ s.residuals.get| / _ = 0
        rw [product, abs_zero, zero_div]
  obtain ⟨t, stopped⟩ := stops.mpr (zero.trans_le gtol)
  refine ⟨t, stopped, ?_⟩
  obtain ⟨u, kept, -, -, -, next | ⟨next, -⟩⟩ := affine.linearize_cases tall c recorded
  · cases stopped.symm.trans next
    exact kept
  · cases stopped.symm.trans next

/-- A trial stops or takes its step. -/
theorem attempt_cases (h : t.Armed tall) (recorded : t.Recorded) (modeled : t.Modeled tall a)
    (c : Config ℝ) :
    (∃ info, info.isAbort = false ∧ t.attempt tall c = (t.tried tall).finish info) ∨
      t.attempt tall c = .linearize (t.tried tall) := by
  obtain ⟨success, -⟩ := @trial_residuals p a b tall t affine recorded
  obtain ⟨-, -, good⟩ := affine.trial_reduction h recorded modeled
  rw [State.attempt_of_success success]
  split
  next info ends =>
    exact .inl ⟨info, Termination.isAbort_of_isVerdict (State.isVerdict_of_verdict ends), rfl⟩
  next => exact .inr (if_pos good)

/-- A trial counts as an iteration. -/
theorem tried_counted (h : t.Armed tall) (recorded : t.Recorded) (modeled : t.Modeled tall a)
    (counted : t.iterations = (trialNumbers t.calls).length) :
    (t.tried tall).iterations = (trialNumbers (t.tried tall).calls).length := by
  obtain ⟨-, -, good⟩ := affine.trial_reduction h recorded modeled
  have same := State.proposed_same tall t
  rw [State.tried_iterations, if_pos good, counted, State.tried_calls]
  have longer : (t.proposed tall).evaluateTrial.1.calls = t.calls.push _ :=
    congrArg (Array.push · _) same.calls
  rw [longer, trialNumbers_push]
  simp [Problem.call]

end Problem.Affine

/-! ### Runs -/

namespace Stage

variable {tall : p.parameterCount ≤ p.residualCount} {c : Config ℝ}

/-- A solve of affine residuals has not failed, has taken every step it has tried, and knows the
model when it is about to try the next. -/
structure Modeled (tall : p.parameterCount ≤ p.residualCount)
    (a : Matrix (Fin p.residualCount) (Fin p.parameterCount) ℝ) (stage : Stage p) : Prop where
  recorded : stage.Recorded
  counted : stage.state.iterations = (trialNumbers stage.state.calls).length
  model : ∀ s, stage = .attempt s → s.Modeled tall a
  intact : ∀ info s, stage = .stopped info s → info.isAbort = false

theorem finish_modeled {info : Termination} {t : State p} (recorded : (t.finish info).Recorded)
    (counted : t.iterations = (trialNumbers t.calls).length) (intact : info.isAbort = false) :
    (t.finish info).Modeled tall a := by
  refine ⟨recorded, counted, ?_, ?_⟩
  · rintro s ⟨⟩
  · rintro _ s ⟨⟩
    exact intact

theorem next_modeled (affine : p.Affine a b) {stage : Stage p} (prepared : stage.Prepared tall c)
    (h : stage.Modeled tall a) : (stage.next tall c).Modeled tall a := by
  have recorded := @next_recorded _ _ p tall c stage h.recorded
  cases stage with
  | stopped info s => exact h
  | linearize s =>
    obtain ⟨t, -, -, iterations, trials, next⟩ := affine.linearize_cases tall c h.recorded
    have counted : t.iterations = (trialNumbers t.calls).length := by
      rw [iterations, trials]
      exact h.counted
    rw [Stage.next] at recorded ⊢
    rcases next with next | ⟨next, model⟩
    · rw [next] at recorded ⊢
      exact finish_modeled recorded counted rfl
    · rw [next] at recorded ⊢
      refine ⟨recorded, counted, ?_, ?_⟩
      · rintro s ⟨⟩
        exact model
      · rintro info s ⟨⟩
  | attempt s =>
    have counted := affine.tried_counted prepared h.recorded (h.model s rfl) h.counted
    rw [Stage.next] at recorded ⊢
    rcases affine.attempt_cases prepared h.recorded (h.model s rfl) c with
      ⟨info, intact, next⟩ | next
    · rw [next] at recorded ⊢
      exact finish_modeled recorded counted intact
    · rw [next] at recorded ⊢
      refine ⟨recorded, counted, ?_, ?_⟩
      · rintro s ⟨⟩
      · rintro info s ⟨⟩

theorem run_modeled (affine : p.Affine a b) (gtol : 0 ≤ c.gtol) (factor : 0 < c.factor)
    (steps : Nat) {stage : Stage p} (prepared : stage.Prepared tall c) (h : stage.Modeled tall a) :
    (stage.run tall c steps).Prepared tall c ∧ (stage.run tall c steps).Modeled tall a :=
  @run_invariant _ _ _ _ _ (fun now => now.Prepared tall c ∧ now.Modeled tall a)
    (fun _ now => ⟨next_prepared gtol factor now.1, next_modeled affine now.1 now.2⟩) steps _
    ⟨prepared, h⟩

end Stage

theorem Accepted.first_modeled (affine : p.Affine a b) {c : Config ℝ} {x residuals diag : Array ℝ}
    {w : Workspace ℝ} (h : Accepted p c x residuals diag w) : h.first.Modeled h.tall a := by
  have recorded : h.first.Recorded := State.start_recorded ..
  obtain ⟨success, -⟩ := affine 1 h.given.x h.given.residuals
  rw [h.first_of_success success] at recorded ⊢
  refine ⟨recorded, rfl, ?_, ?_⟩
  · rintro t ⟨⟩
  · rintro info t ⟨⟩

/-- Without errors of rounding, a solve of affine residuals does not fail and takes every step it
tries, for each achieves just the reduction predicted for it. After a step that is not damped the
solve stops at once, or its next linearization finds the iterate stationary; either way the iterate
it hands back is a least-squares solution. -/
theorem solve_affine (affine : p.Affine a b) {c : Config ℝ} {x residuals diag : Array ℝ}
    {w : Workspace ℝ} (h : Accepted p c x residuals diag w) :
    let run := solve p c x residuals diag w
    run.outcome.info.isAbort = false ∧
    run.outcome.iterations = (trialNumbers run.calls).length ∧
    ∀ k s, h.first.run h.tall c k = .attempt s →
      (s.proposed h.tall).evaluateTrial.2 = none ∧
      (s.trialReduction h.tall).actual = (s.trialReduction h.tall).predicted ∧
      (s.trialReduction h.tall).ratio = 1 ∧ (s.trialReduction h.tall).acceptable ∧
      ((s.searchStep h.tall).region.par = 0 → ∃ info t, run = .ended info t ∧
        Minimizes a b t.x.get ∧
        (h.first.run h.tall c (k + 1) = .stopped info t ∨
          (∃ u, h.first.run h.tall c (k + 1) = .linearize u) ∧ info = .gtolReached ∧
            h.first.run h.tall c (k + 2) = .stopped .gtolReached t)) := by
  intro run
  have reached (k : Nat) := @Stage.run_modeled p a b h.tall c affine h.gtol_nonneg h.factor_pos k
    h.first h.first_prepared (h.first_modeled affine)
  obtain ⟨info, t, stopped, ended⟩ := solve_stops h
  have final := (reached (stepBound (c.budget p.parameterCount))).2
  rw [Accepted.first, stopped] at final
  rw [show run = .ended info t from ended]
  refine ⟨final.intact info t rfl, final.counted, fun k s here => ?_⟩
  obtain ⟨armed, now⟩ := reached k
  rw [here] at armed now
  have armed : s.Armed h.tall := armed
  have model := now.model s rfl
  obtain ⟨success, -⟩ := @Problem.Affine.trial_residuals p a b h.tall s affine now.recorded
  obtain ⟨actual, ratio, good⟩ := affine.trial_reduction armed now.recorded model
  refine ⟨success, actual, ratio, good, fun undamped => ?_⟩
  have flat := affine.trial_flat armed now.recorded model undamped
  have step : h.first.run h.tall c (k + 1) = s.attempt h.tall c := by
    rw [Stage.run_succ_last, here]
    rfl
  rw [← ended]
  rcases affine.attempt_cases armed now.recorded model c with ⟨reason, -, next⟩ | next
  · have last := step.trans next
    exact ⟨reason, _, h.solve_eq_ended last, minimizes_of_gradient flat, .inl last⟩
  · have before := step.trans next
    have recorded := (reached (k + 1)).2.recorded
    rw [before] at recorded
    obtain ⟨t, next, same⟩ := affine.linearize_flat h.tall h.gtol_nonneg recorded flat
    have last : h.first.run h.tall c (k + 2) = .stopped .gtolReached t := by
      rw [Stage.run_succ_last, before]
      exact next
    -- The linearization has left the iterate where the trial has put it.
    refine ⟨.gtolReached, t, h.solve_eq_ended last, ?_, .inr ⟨⟨_, before⟩, rfl, last⟩⟩
    rw [same]
    exact minimizes_of_gradient flat

theorem identity_affine : identity.Affine (.of fun _ _ => 1) 0 := by
  intro number point buffer
  have response := Problem.eval_scalar (fun _ x => x) number point buffer
  have value (v : Fin 1 → ℝ) (i : Fin 1) :
      (0 + Matrix.of (fun _ _ : Fin 1 => (1 : ℝ)) *ᵥ v) i = v 0 := by
    simp [mulVec, dotProduct]
  refine ⟨congrArg Response.failure response, funext fun i : Fin 1 => ?_⟩
  refine Eq.trans ?_ (value point.get i).symm
  rw [show identity.eval number point buffer = _ from response, Subsingleton.elim i 0]
  rfl

/-- The solve of `identity` from one tries a step and takes it. -/
theorem solve_affine_identity :
    let h := Problem.scalar_accepted (fun _ x => x) 1
    let run := solve identity .default #[1] #[0] #[1] (.new 1 1)
    identity.Affine (.of fun _ _ => 1) 0 ∧
      run.outcome.iterations = (trialNumbers run.calls).length ∧
      ∃ s : State identity, h.first.run h.tall .default 1 = .attempt s ∧
        (s.trialReduction h.tall).ratio = 1 := by
  intro h run
  obtain ⟨-, counted, taken⟩ := solve_affine identity_affine h
  obtain ⟨opened, first, point, buffer, fnorm, -⟩ := Problem.scalar_first h
  obtain ⟨s, next, -⟩ := @linearize_scalar _ .default opened h.tall rfl
    (by rw [fnorm]; norm_num) (by rw [buffer]; exact one_ne_zero) (identity_moves point buffer)
  have here : h.first.run h.tall .default 1 = .attempt s := by
    rw [first]
    exact next
  obtain ⟨-, -, ratio, -⟩ := taken 1 s here
  exact ⟨identity_affine, counted, s, here, ratio⟩

end LeastSquares
