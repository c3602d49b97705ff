import LeastSquares.Proofs.Restart
import LeastSquares.Proofs.Exact.Products
import LeastSquares.Proofs.Exact.Resemblance

/-!
# The order of the data

Without errors of rounding the order of the residuals does not matter. A factorization of the
Jacobian with its rows in another order comes out with other signs, and with other turned residuals
below the rank, but with a system that is alike; and all that a solve reads of it are norms, pivots
and searches. The two solves therefore visit the same points and end alike.
-/
namespace LeastSquares

open Matrix

variable {α : Type} {m n k : Nat}

/-! ### Another order -/

/-- The entries of `v` in another order. -/
def reorder (order : Equiv.Perm (Fin k)) (v : Vector α k) : Vector α k :=
  .ofFn fun i => v.get (order i)

theorem get_reorder (order : Equiv.Perm (Fin k)) (v : Vector α k) (i : Fin k) :
    (reorder order v).get i = v.get (order i) := by
  rw [reorder, get_eq, Vector.getElem_ofFn]

theorem norm_reorder (order : Equiv.Perm (Fin k)) (v : Vector ℝ k) :
    norm (reorder order v).toList = norm v.toList := by
  rw [norm_real, norm_real]
  simp only [get_reorder]
  rw [Equiv.sum_comp order fun i => v.get i ^ 2]

def Response.reorder (order : Equiv.Perm (Fin m)) (r : Response α m) : Response α m :=
  { r with buffer := LeastSquares.reorder order r.buffer }

def Call.reorder (order : Equiv.Perm (Fin m)) (c : Call α m n) : Call α m n :=
  { c with response := c.response.reorder order }

theorem Call.reorder_buffer (order : Equiv.Perm (Fin m)) (c : Call α m n) :
    (c.reorder order).response.buffer = LeastSquares.reorder order c.response.buffer := rfl

/-- The same problem with its residuals in another order, in whatever buffer of that length. -/
@[reducible] def Problem.reordered (p : Problem α) (order : Equiv.Perm (Fin p.residualCount)) :
    Problem α where
  residualCount := p.residualCount
  parameterCount := p.parameterCount
  eval {m _} number point buffer :=
    if same : p.residualCount = m then
      let order := (finCongr same).permCongr order
      (p.eval number point (reorder order.symm buffer)).reorder order
    else p.eval number point buffer

/-- The residuals and whether an evaluation fails are a function of the parameters, and perhaps of
the number of the call. What the buffer held before is of no account. -/
def Problem.Determined (p : Problem α) : Prop :=
  ∀ (number : Nat) (point : Vector α p.parameterCount) (buffer buffer' : Vector α p.residualCount),
    p.eval number point buffer' = p.eval number point buffer

theorem Problem.Evaluates.determined {p : Problem α}
    {f : Vector α p.parameterCount → Vector α p.residualCount} (h : p.Evaluates f) :
    p.Determined :=
  fun number point buffer buffer' => (h number point buffer').trans (h number point buffer).symm

section

variable {p : Problem α} (determined : p.Determined) (order : Equiv.Perm (Fin p.residualCount))
include determined

theorem Problem.Determined.eval_reordered (number : Nat) (point : Vector α p.parameterCount)
    (buffer buffer' : Vector α p.residualCount) :
    (p.reordered order).eval number point buffer' = (p.eval number point buffer).reorder order :=
  (dif_pos rfl).trans (congrArg (Response.reorder order) (determined ..))

/-- A call at the same point, after as many other ones. -/
theorem Problem.Determined.call_reordered
    {calls calls' : Calls α p.residualCount p.parameterCount} (same : calls'.size = calls.size)
    (purpose : Purpose) (point : Vector α p.parameterCount)
    (buffer buffer' : Vector α p.residualCount) :
    (p.reordered order).call calls' purpose point buffer' =
      (p.call calls purpose point buffer).reorder order := by
  unfold Problem.call
  rw [same, determined.eval_reordered order (calls.size + 1) point buffer]
  rfl

end

/-! ### Jacobians -/

section

variable {a a' : Columns ℝ m n} {order : Equiv.Perm (Fin m)}
  (rows : ∀ j, a'.get j = reorder order (a.get j))
include rows

theorem Columns.gram_reorder : a'.matrixᵀ * a'.matrix = a.matrixᵀ * a.matrix := by
  ext i j
  change ∑ l, (a'.get i).get l * (a'.get j).get l = ∑ l, (a.get i).get l * (a.get j).get l
  simp only [rows, get_reorder]
  exact Equiv.sum_comp order fun l => (a.get i).get l * (a.get j).get l

theorem Columns.image_reorder (w : Vector ℝ m) :
    a'.matrixᵀ *ᵥ (reorder order w).get = a.matrixᵀ *ᵥ w.get := by
  ext i
  change ∑ l, (a'.get i).get l * (reorder order w).get l = ∑ l, (a.get i).get l * w.get l
  simp only [rows, get_reorder]
  exact Equiv.sum_comp order fun l => (a.get i).get l * w.get l

end

namespace Differencing

/-- Two Jacobians in progress, of which the second has its rows in another order. -/
structure Reordered (order : Equiv.Perm (Fin m)) (k : Nat) (d d' : Differencing ℝ m n) :
    Prop where
  x : d'.x = d.x
  nfev : d'.nfev = d.nfev
  calls : d'.calls = d.calls.map (·.reorder order)
  failure : d'.failure = d.failure
  /-- Where an evaluation has failed, what it left. -/
  buffer : d.failure.isSome → d'.buffer = reorder order d.buffer
  filled : d.failure = none →
    ∀ j : Fin n, j < k → d'.jacobian.get j = reorder order (d.jacobian.get j)

variable {p : Problem ℝ} {order : Equiv.Perm (Fin p.residualCount)}

theorem column_reordered (determined : p.Determined) {scale : ℝ}
    {residuals : Vector ℝ p.residualCount} (j : Fin p.parameterCount)
    {d d' : Differencing ℝ p.residualCount p.parameterCount} (h : Reordered order j d d') :
    Reordered order (j + 1) (d.column p scale residuals j)
      (d'.column (p.reordered order) scale (reorder order residuals) j) := by
  have probe : d'.probe (p.reordered order) scale j = (d.probe p scale j).reorder order := by
    unfold Differencing.probe moved
    rw [h.x]
    refine determined.call_reordered order ?_ ..
    rw [h.calls, Array.size_map]
  by_cases failed : d.failure.isSome
  · rw [column_of_failed failed, column_of_failed (h.failure ▸ failed)]
    exact { h with filled := fun intact => absurd intact (Option.isSome_iff_ne_none.mp failed) }
  · -- Both calls are made at the same point, and so they fail or succeed together.
    have intact : d.failure = none := Option.not_isSome_iff_eq_none.mp failed
    cases outcome : (d.probe p scale j).response.failure with
    | some e =>
      rw [column_of_failure intact outcome, column_of_failure (h.failure.trans intact)
        ((congrArg (·.response.failure) probe).trans outcome), probe]
      exact {
        x := rfl
        nfev := congrArg (· + 1) h.nfev
        calls := by rw [h.calls, Array.map_push]
        failure := rfl
        buffer := fun _ => rfl
        filled := nofun }
    | none =>
      rw [column_of_success intact outcome, column_of_success (h.failure.trans intact)
        ((congrArg (·.response.failure) probe).trans outcome), probe]
      exact {
        x := by
          dsimp only
          rw [h.x]
          rfl
        nfev := congrArg (· + 1) h.nfev
        calls := by
          dsimp only
          rw [h.calls, Array.map_push]
        failure := h.failure
        buffer := fun failed' => absurd failed' failed
        filled := fun _ i done => by
          dsimp only
          rw [get_overwriteAt, get_overwriteAt]
          split
          · refine eq_of_get_eq fun l => ?_
            simp only [get_reorder, get_overwrite, Call.reorder_buffer, h.x]
          next other => exact h.filled intact i (by omega) }

theorem run_reordered (determined : p.Determined) {epsfcn : ℝ}
    {residuals : Vector ℝ p.residualCount}
    {d d' : Differencing ℝ p.residualCount p.parameterCount} (h : Reordered order 0 d d') :
    Reordered order p.parameterCount (d.run p epsfcn residuals)
      (d'.run (p.reordered order) epsfcn (reorder order residuals)) :=
  foldl_related (Reordered order) h fun j _ _ now => column_reordered determined j now

end Differencing

/-! ### Factorizations -/

namespace Factor

variable {tall : n ≤ m} {f f' : Factor ℝ m n} {w w' : Vector ℝ m}

/-- Matrices whose columns have the same products with each other and with the right-hand sides
leave systems that are alike. -/
theorem system_alike
    (gram : f'.packed.matrixᵀ * f'.packed.matrix = f.packed.matrixᵀ * f.packed.matrix)
    (image : f'.packed.matrixᵀ *ᵥ w'.get = f.packed.matrixᵀ *ᵥ w.get) :
    Triangular.Alike tall (f.system tall w) (f'.system tall w') := by
  have same := compute_sameProducts gram
  exact {
    pivots := same.pivots
    diagonal := fun j => by
      simp only [system, square, Columns.lead_withDiagonal, if_true]
      exact same.diagonal j (lt_min (lt_of_lt_of_le j.isLt tall) j.isLt)
    gram := by
      simp only [system]
      rw [upper_gram, upper_gram, gram, same.pivots]
    gradient := by
      simp only [Triangular.gradient_eq, system]
      rw [upper_projected, upper_projected, image, same.pivots]
    revealing := square_rankRevealing tall f
    revealing' := square_rankRevealing tall f' }

end Factor

/-- The cosines that are tested depend on the gradient and on the norms of the columns. -/
theorem Triangular.Alike.gradientNorm_eq {tall : n ≤ m} {s s' : Triangular ℝ m n}
    (h : Triangular.Alike tall s s') (norms : Vector ℝ n) (fnorm : ℝ) :
    gradientNorm tall s'.r s'.pivots s'.qtb norms fnorm =
      gradientNorm tall s.r s.pivots s.qtb norms fnorm := by
  have entry (t : Triangular ℝ m n) (j : Fin n) :
      sumWhere (· ≤ j) (fun i => t.r.lead tall i j * (t.qtb.get i / fnorm)) =
        t.gradient tall j / fnorm := by
    rw [sumWhere_real]
    simp only [← mul_div_assoc, ← Finset.sum_div]
    rfl
  simp only [gradientNorm, entry, h.pivots, h.gradient]

/-! ### States -/

variable {p : Problem ℝ} {tall : p.parameterCount ≤ p.residualCount} {c : Config ℝ}
  {order : Equiv.Perm (Fin p.residualCount)}

/-- Two solves in the same state, of which the second has its residuals in another order. What their
buffers hold may differ. -/
structure State.Reordered (order : Equiv.Perm (Fin p.residualCount)) (s : State p)
    (s' : State (p.reordered order)) : Prop where
  x : s'.x = s.x
  residuals : s'.residuals = reorder order s.residuals
  diag : s'.diag = s.diag
  region : s'.region = s.region
  xnorm : s'.xnorm = s.xnorm
  fnorm : s'.fnorm = s.fnorm
  gnorm : s'.gnorm = s.gnorm
  nfev : s'.nfev = s.nfev
  iterations : s'.iterations = s.iterations
  calls : s'.calls = s.calls.map (·.reorder order)
  events : s'.events = s.events

/-- Two solves that are about to evaluate a trial, or have just done so. -/
structure State.Placed (order : Equiv.Perm (Fin p.residualCount)) (s : State p)
    (s' : State (p.reordered order)) : Prop extends State.Reordered order s s' where
  step : s'.buffers.step = s.buffers.step
  point : s'.buffers.point = s.buffers.point

/-- Two solves at the same stage. Where a step is about to be tried, the systems are alike. -/
inductive Stage.Reordered (tall : p.parameterCount ≤ p.residualCount)
    (order : Equiv.Perm (Fin p.residualCount)) : Stage p → Stage (p.reordered order) → Prop
  | linearize {s s'} (h : State.Reordered order s s') :
    Reordered tall order (.linearize s) (.linearize s')
  | attempt {s s'} (h : State.Reordered order s s')
    (alike : Triangular.Alike tall s.system s'.system) :
    Reordered tall order (.attempt s) (.attempt s')
  | stopped (info : Termination) {s s'} (h : State.Reordered order s s') :
    Reordered tall order (.stopped info s) (.stopped info s')

namespace State

variable {s t : State p} {s' t' : State (p.reordered order)}

theorem Reordered.abort (h : Reordered order s s') (e : Error ℝ) :
    Stage.Reordered tall order (s.abort e) (s'.abort e) :=
  .stopped _ { h with
    fnorm := (congrArg (fun v : Vector ℝ p.residualCount => norm v.toList) h.residuals).trans
      (norm_reorder ..)
    events := congrArg₂ (fun events nfev => events.push (.aborted nfev e)) h.events h.nfev }

theorem Reordered.outcome_eq (h : Reordered order s s') (info : Termination) :
    s'.outcome info = s.outcome info := by
  simp only [outcome, h.nfev, h.iterations, h.fnorm]

theorem Reordered.finish (h : Reordered order s s') (info : Termination) :
    Stage.Reordered tall order (s.finish info) (s'.finish info) :=
  .stopped _ { h with
    events := congrArg₂ (fun events outcome => events.push (.finished outcome)) h.events
      (h.outcome_eq info) }

/-! ### Linearizing -/

theorem Reordered.differentiate (determined : p.Determined) (h : Reordered order s s')
    (c : Config ℝ) : Differencing.Reordered order p.parameterCount (s.differentiate c)
      (s'.differentiate c :) := by
  have start : Differencing.Reordered order 0 s.unfilled (s'.unfilled :) :=
    ⟨h.x, h.nfev, h.calls, rfl, nofun, nofun⟩
  have run := @Differencing.run_reordered p order determined c.epsfcn s.residuals _ _ start
  rw [← h.residuals] at run
  exact run

theorem Reordered.interrupted (h : Reordered order s s')
    {d d' : Differencing ℝ p.residualCount p.parameterCount}
    (taken : Differencing.Reordered order p.parameterCount d d') (failed : d.failure.isSome) :
    Reordered order (s.interrupted d) (s'.interrupted d') :=
  { h with
    x := taken.x
    residuals := taken.buffer failed
    nfev := taken.nfev
    calls := taken.calls }

theorem Reordered.settle (h : Reordered order s s') (norms : Vector ℝ p.parameterCount) :
    Reordered order (s.settle c norms) (s'.settle c norms) := by
  unfold State.settle
  by_cases first : s.iterations = 0
  · rw [if_pos first, if_pos (h.iterations.trans first)]
    simp only [overwrite_eq_ofFn, h.diag, h.x]
    exact { h with
      x := rfl
      diag := rfl
      xnorm := rfl
      region := rfl }
  · rw [if_neg first, if_neg (h.iterations ▸ first)]
    exact h

theorem Reordered.raisedDiag (h : Reordered order s s') (c : Config ℝ)
    (norms : Vector ℝ p.parameterCount) :
    s'.raisedDiag (p := p.reordered order) c norms = s.raisedDiag c norms := by
  unfold State.raisedDiag
  rw [h.diag]

/-- The system a state holds is the one its Jacobian was factored into, whatever damped solves have
been made since. -/
theorem Holds.system_eq {f : Factor ℝ p.residualCount p.parameterCount}
    {w : Vector ℝ p.residualCount} (h : t.Holds tall (f.compute true) w) :
    t.system = { f.system tall w with r := t.buffers.jacobian } := by
  rw [system, h.pivots, h.qtf]
  rfl

theorem Holds.alike {f f' : Factor ℝ p.residualCount p.parameterCount}
    {w w' : Vector ℝ p.residualCount} (h : t.Holds tall (f.compute true) w)
    (h' : t'.Holds (p := p.reordered order) tall (f'.compute true) w')
    (alike : Triangular.Alike tall (f.system tall w) (f'.system tall w')) :
    Triangular.Alike tall t.system t'.system := by
  rw [h.system_eq, h'.system_eq]
  exact alike.of_same h.triangle h'.triangle

section

variable (taken : Differencing.Reordered order p.parameterCount (s.differentiate c)
  (s'.differentiate c :)) (success : (s.differentiate c).failure = none)
include taken success

/-- The Jacobians are factored into systems that are alike. -/
theorem factored_alike :
    Triangular.Alike tall ((s.unfactored (s.differentiate c)).system tall s.residuals)
      ((s'.unfactored (s'.differentiate c :)).system tall (reorder order s.residuals)) := by
  have rows (j : Fin p.parameterCount) := taken.filled success j j.isLt
  exact Factor.system_alike (Columns.gram_reorder rows) (Columns.image_reorder rows s.residuals)

theorem factored_norms : (s'.factored (p := p.reordered order) c).norms = (s.factored c).norms := by
  apply eq_of_get_eq
  intro j
  have size : norm ((s'.differentiate c :).jacobian.get j).toList =
      norm ((s.differentiate c).jacobian.get j).toList := by
    rw [taken.filled success j j.isLt, norm_reorder]
  have norms := Factor.get_compute_norms true (s.unfactored (s.differentiate c)) j
  have norms' := Factor.get_compute_norms true (s'.unfactored (s'.differentiate c :)) j
  exact norms'.trans (size.trans norms.symm)

/-- Both test the same cosine. -/
theorem Reordered.tested (h : Reordered order s s') :
    Reordered order
      ((s.factorize tall (s.differentiate c)).1.tested tall c (s.factored c).norms)
      ((s'.factorize (p := p.reordered order) tall (s'.differentiate c)).1.tested tall c
        (s.factored c).norms) := by
  have factored : Reordered order (s.factorize tall (s.differentiate c)).1
      (s'.factorize (p := p.reordered order) tall (s'.differentiate c)).1 :=
    { h with
      x := taken.x
      nfev := taken.nfev
      calls := taken.calls }
  have settled := @Reordered.settle p c order _ _ factored (s.factored c).norms
  have cosine := tested_gnorm tall c s
  have cosine' : ((s'.factorize (p := p.reordered order) tall (s'.differentiate c)).1.tested
      (p := p.reordered order) tall c (s'.factored c).norms).gnorm = _ :=
    tested_gnorm (p := p.reordered order) tall c s'
  rw [factored_norms taken success, h.residuals, h.fnorm] at cosine'
  exact { settled with
    gnorm := cosine'.trans (((factored_alike taken success).gradientNorm_eq ..).trans cosine.symm) }

end

theorem Reordered.linearize (determined : p.Determined) (h : Reordered order s s') :
    Stage.Reordered tall order (s.linearize tall c)
      (s'.linearize (p := p.reordered order) tall c) := by
  have taken := h.differentiate determined c
  cases outcome : (s.differentiate c).failure with
  | some e =>
    rw [linearize_of_failure outcome, linearize_of_failure (taken.failure.trans outcome)]
    exact (h.interrupted taken (Option.isSome_of_eq_some outcome)).abort e
  | none =>
    have outcome' := taken.failure.trans outcome
    have tested := @Reordered.tested p tall c order s s' taken outcome h
    have holds := @linearize_holds _ _ _ tall c s outcome
    have holds' := @linearize_holds _ _ (p.reordered order) tall c s' outcome'
    have norms : (s'.factorize (p := p.reordered order) tall (s'.differentiate c)).2 =
        (s.factored c).norms := factored_norms taken outcome
    -- What is held of the factorization is told of the stage that the gradient test leads to.
    rw [linearize_of_success outcome] at holds ⊢
    rw [linearize_of_success outcome', norms] at holds' ⊢
    change Stage.Reordered tall order
      ((s.factorize tall (s.differentiate c)).1.testGradient tall c (s.factored c).norms) _
    change ((s.factorize tall (s.differentiate c)).1.testGradient tall c
      (s.factored c).norms).state.Holds tall _ _ at holds
    by_cases orthogonal : ((s.factorize tall (s.differentiate c)).1.tested tall c
        (s.factored c).norms).gnorm ≤ c.gtol
    · rw [testGradient_of_le orthogonal, testGradient_of_le (tested.gnorm.trans_le orthogonal)]
      exact tested.finish _
    · have orthogonal' := fun small => orthogonal (tested.gnorm.symm.trans_le small)
      rw [testGradient_of_not_le orthogonal] at holds ⊢
      rw [testGradient_of_not_le orthogonal'] at holds' ⊢
      refine .attempt { tested with diag := tested.raisedDiag .. } (Holds.alike holds holds' ?_)
      rw [h.residuals]
      exact factored_alike taken outcome

/-! ### Trials -/

/-- Both find the same damping and the same step. -/
theorem Reordered.searchStep (h : Reordered order s s')
    (alike : Triangular.Alike tall s.system s'.system) (armed : s.Armed tall) :
    Reordered order (s.searchStep tall) (s'.searchStep (p := p.reordered order) tall) ∧
      (s'.searchStep (p := p.reordered order) tall).buffers.step =
        (s.searchStep tall).buffers.step := by
  have found (buffers buffers' : SearchBuffers ℝ p.parameterCount) :=
    alike.search armed.delta armed.par armed.diag armed.apart buffers buffers'
  have same : (s'.searchStep (p := p.reordered order) tall).region = (s.searchStep tall).region ∧
      (s'.searchStep (p := p.reordered order) tall).buffers.step =
        (s.searchStep tall).buffers.step := by
    unfold State.searchStep
    dsimp only
    rw [h.diag, h.region]
    exact ⟨congrArg (Region.mk _) (found ..).1, (found ..).2⟩
  exact ⟨{ h with region := same.1 }, same.2⟩

theorem Reordered.placeStep (h : Reordered order s s')
    (step : s'.buffers.step = s.buffers.step) :
    Placed order s.placeStep s'.placeStep ∧ s'.placeStep.stepLength = s.placeStep.stepLength := by
  simp only [State.placeStep, State.stepLength, overwrite_eq_ofFn, step, h.x, h.diag, and_true]
  exact { h with
    x := rfl
    diag := rfl
    step := rfl
    point := rfl }

theorem Placed.capRegion (h : Placed order s s') (length : s'.stepLength = s.stepLength) :
    Placed order s.capRegion s'.capRegion := by
  unfold State.capRegion
  by_cases early : s.nfev ≤ p.parameterCount + 1
  · rw [if_pos early, if_pos (h.nfev.trans_le early), h.region, length]
    exact { h with region := rfl }
  · rw [if_neg early, if_neg fun early' => early (h.nfev.symm.trans_le early')]
    exact h

theorem Placed.evaluateTrial (determined : p.Determined) (h : Placed order s s') :
    s'.evaluateTrial.2 = s.evaluateTrial.2 ∧ Placed order s.evaluateTrial.1 s'.evaluateTrial.1 ∧
      s'.evaluateTrial.1.buffers.trial = reorder order s.evaluateTrial.1.buffers.trial := by
  have call : (p.reordered order).call s'.calls .trial s'.buffers.point s'.buffers.trial =
      (p.call s.calls .trial s.buffers.point s.buffers.trial).reorder order := by
    rw [h.point]
    refine determined.call_reordered order ?_ ..
    rw [h.calls, Array.size_map]
  unfold State.evaluateTrial
  dsimp only
  rw [call]
  exact ⟨rfl, { h with
    nfev := congrArg (· + 1) h.nfev
    calls := by rw [h.calls, Array.map_push] }, rfl⟩

theorem Placed.stranded (h : Placed order s s')
    (trial : s'.buffers.trial = reorder order s.buffers.trial) :
    Reordered order s.stranded s'.stranded :=
  { h with
    x := h.point
    residuals := trial }

theorem Placed.accept (h : Placed order s s')
    (trial : s'.buffers.trial = reorder order s.buffers.trial) :
    Reordered order s.accept s'.accept := by
  simp only [State.accept, overwrite_get, h.diag, h.point, trial, norm_reorder]
  exact { h with
    x := rfl
    diag := rfl
    residuals := rfl
    xnorm := rfl
    fnorm := rfl
    iterations := congrArg (· + 1) h.iterations }

/-- Trials judged alike lead to the same state. -/
theorem Placed.judged (h : Placed order s s')
    (trial : s'.buffers.trial = reorder order s.buffers.trial) {length : ℝ}
    (same : (s'.judge (p := p.reordered order) tall length).2 = (s.judge tall length).2) :
    Reordered order (s.judged tall length)
      (s'.judged (p := p.reordered order) tall length) := by
  have size : norm s'.buffers.trial.toList = norm s.buffers.trial.toList := by
    rw [trial, norm_reorder]
  have region : (s'.judge (p := p.reordered order) tall length).1.region =
      (s.judge tall length).1.region := by
    change s'.region.update (s'.judge (p := p.reordered order) tall length).2 s'.fnorm
        (norm s'.buffers.trial.toList) length =
      s.region.update (s.judge tall length).2 s.fnorm (norm s.buffers.trial.toList) length
    rw [h.region, h.fnorm, same, size]
  have events : (s'.judge (p := p.reordered order) tall length).1.events =
      (s.judge tall length).1.events := by
    change s'.events.push (.tried s'.nfev (s'.judge (p := p.reordered order) tall length).1.region
        (s'.judge (p := p.reordered order) tall length).2.ratio (norm s'.buffers.trial.toList)) =
      s.events.push (.tried s.nfev (s.judge tall length).1.region (s.judge tall length).2.ratio
        (norm s.buffers.trial.toList))
    rw [h.events, h.nfev, region, same, size]
  have adapted : Placed order (s.judge tall length).1
      (s'.judge (p := p.reordered order) tall length).1 :=
    { h with region, events }
  unfold State.judged
  rw [same]
  split
  · exact adapted.accept trial
  · exact adapted.toReordered

theorem Reordered.verdict (h : Reordered order s s') (c : Config ℝ) (r : Reduction ℝ) :
    s'.verdict c r = s.verdict c r := by
  unfold State.verdict
  rw [h.region, h.xnorm, h.nfev, h.gnorm]

/-- The systems stay alike whatever damped solves are made. -/
theorem alike_of_same (alike : Triangular.Alike tall s.system s'.system)
    (same : s.SameFactorization tall t)
    (same' : s'.SameFactorization (p := p.reordered order) tall t') :
    Triangular.Alike tall t.system t'.system := by
  have held := alike.of_same same.triangle same'.triangle
  rw [system, system, same.pivots, same.qtf, same'.pivots, same'.qtf]
  exact held

section

variable (determined : p.Determined) (h : Reordered order s s')
  (alike : Triangular.Alike tall s.system s'.system) (armed : s.Armed tall)
include h alike armed

theorem Reordered.proposed :
    Placed order (s.proposed tall) (s'.proposed (p := p.reordered order) tall) ∧
      (s'.searchStep (p := p.reordered order) tall).placeStep.stepLength =
        (s.searchStep tall).placeStep.stepLength := by
  obtain ⟨searched, step⟩ := h.searchStep alike armed
  obtain ⟨placed, length⟩ := searched.placeStep step
  exact ⟨placed.capRegion length, length⟩

/-- The step has one length, seen through either triangle. -/
theorem Reordered.stepImage_norm :
    norm (s'.stepImage (p := p.reordered order) tall).toList = norm (s.stepImage tall).toList := by
  obtain ⟨searched, step⟩ := h.searchStep alike armed
  obtain ⟨placed, -⟩ := searched.placeStep step
  have found := alike_of_same alike (searchStep_same_factorization tall s)
    (searchStep_same_factorization (p := p.reordered order) tall s')
  have image : (s.stepImage tall).get = (s.searchStep tall).system.r.upper tall *ᵥ
      ((s.searchStep tall).placeStep.buffers.step.get ∘ (s.searchStep tall).system.pivots.get) :=
    Reduction.get_image ..
  have image' : (s'.stepImage (p := p.reordered order) tall).get =
      (s'.searchStep (p := p.reordered order) tall).system.r.upper tall *ᵥ
        ((s'.searchStep (p := p.reordered order) tall).placeStep.buffers.step.get ∘
          (s'.searchStep (p := p.reordered order) tall).system.pivots.get) :=
    Reduction.get_image ..
  -- The images differ, but they have the same product with themselves.
  refine norm_eq_of_dot ?_
  rw [image, image', placed.step, found.pivots]
  exact mulVec_dot_of_gram found.gram _

include determined

/-- Both make the same trial, and judge it alike. -/
theorem Reordered.tried :
    (s'.proposed (p := p.reordered order) tall).evaluateTrial.2 =
        (s.proposed tall).evaluateTrial.2 ∧
      Reordered order (s.proposed tall).evaluateTrial.1.stranded
        (s'.proposed (p := p.reordered order) tall).evaluateTrial.1.stranded ∧
      s'.trialReduction (p := p.reordered order) tall = s.trialReduction tall ∧
      Reordered order (s.tried tall) (s'.tried (p := p.reordered order) tall) := by
  obtain ⟨placed, length⟩ := h.proposed alike armed
  obtain ⟨outcome, evaluated, trial⟩ := placed.evaluateTrial determined
  have reduction : s'.trialReduction (p := p.reordered order) tall = s.trialReduction tall := by
    have par := congrArg Region.par (h.searchStep alike armed).1.region
    rw [trialReduction_eq, trialReduction_eq]
    simp only [Reduction.measure, h.fnorm, trial, norm_reorder, length, par,
      h.stepImage_norm alike armed]
  refine ⟨outcome, evaluated.stranded trial, reduction, ?_⟩
  unfold State.trialReduction at reduction
  unfold State.tried
  rw [length] at reduction ⊢
  exact evaluated.judged trial reduction

theorem Reordered.attempt :
    Stage.Reordered tall order (s.attempt tall c)
      (s'.attempt (p := p.reordered order) tall c) := by
  obtain ⟨outcome, stranded, reduction, tried⟩ := h.tried determined alike armed
  cases failure : (s.proposed tall).evaluateTrial.2 with
  | some e =>
    rw [attempt_of_failure failure, attempt_of_failure (outcome.trans failure)]
    exact stranded.abort e
  | none =>
    rw [attempt_of_success failure, attempt_of_success (outcome.trans failure), reduction,
      tried.verdict]
    split
    next info _ => exact tried.finish info
    next =>
      split
      · exact .linearize tried
      · exact .attempt tried (alike_of_same alike (tried_same_factorization tall s)
          (tried_same_factorization (p := p.reordered order) tall s'))

end

/-- Both start with the same call, whatever buffers they are given. -/
theorem start_reordered (determined : p.Determined) (c : Config ℝ)
    (x diag : Vector ℝ p.parameterCount) (residuals residuals' : Vector ℝ p.residualCount)
    (buffers buffers' : Buffers ℝ p.residualCount p.parameterCount) :
    Stage.Reordered tall order (start c x residuals diag buffers)
      (start (p := p.reordered order) c x residuals' diag buffers') := by
  have call : (p.reordered order).call #[] .start x residuals' =
      (p.call #[] .start x residuals).reorder order :=
    determined.call_reordered order rfl ..
  have same : Reordered order (opened c diag buffers (p.call #[] .start x residuals))
      (opened (p := p.reordered order) c diag buffers'
        ((p.reordered order).call #[] .start x residuals')) := by
    rw [call]
    exact {
      x := rfl
      residuals := rfl
      diag := rfl
      region := rfl
      xnorm := rfl
      fnorm := norm_reorder ..
      gnorm := rfl
      nfev := rfl
      iterations := rfl
      calls := by simp only [opened, List.map_toArray, List.map_cons, List.map_nil]
      events := rfl }
  have failure : ((p.reordered order).call #[] .start x residuals').response.failure =
      (p.call #[] .start x residuals).response.failure :=
    congrArg (·.response.failure) call
  unfold start
  dsimp only
  rw [failure]
  cases (p.call #[] .start x residuals).response.failure with
  | some e => exact same.abort e
  | none => exact .linearize same

end State

/-! ### Solves -/

theorem Stage.run_reordered (determined : p.Determined) (gtol : 0 ≤ c.gtol) (factor : 0 < c.factor)
    (steps : Nat) {stage : Stage p} {stage' : Stage (p.reordered order)}
    (prepared : stage.Prepared tall c) (h : Stage.Reordered tall order stage stage') :
    Stage.Reordered tall order (stage.run tall c steps)
      (stage'.run (p := p.reordered order) tall c steps) := by
  -- The invariant of the steps is carried along for the first solve only.
  have both := @run_related ℝ _ p tall c (p.reordered order) tall
    (fun stage stage' => stage.Prepared tall c ∧ Stage.Reordered tall order stage stage') c ?_ steps
    stage stage' ⟨prepared, h⟩
  · exact both.2
  · rintro stage stage' ⟨prepared, h⟩
    refine ⟨next_prepared gtol factor prepared, ?_⟩
    cases h with
    | linearize h => exact h.linearize determined
    | attempt h alike => exact h.attempt determined alike prepared
    | stopped info h => exact .stopped info h

theorem points_reorder (order : Equiv.Perm (Fin m)) (calls : Calls α m n) :
    points (calls.map (·.reorder order)) = points calls := by
  unfold points
  rw [Array.toList_map, List.map_map]
  rfl

theorem Accepted.reordered {p : Problem α} [Scalar α] {c : Config α} {x residuals diag : Array α}
    {w : Workspace α} (h : Accepted p c x residuals diag w)
    (order : Equiv.Perm (Fin p.residualCount)) :
    Accepted (p.reordered order) c x residuals diag w :=
  ⟨h.size_x, h.size_residuals, h.size_diag, h.rows, h.cols, h.valid⟩

/-- Without errors of rounding the order of the residuals does not matter, whatever the ranks of the
Jacobians are: with its residuals in another order a solve makes its calls at the same points, and
comes to the same end, with the same iterate and scale factors. The residuals it hands back are the
other ones in that order, as are those of each call. What the residual buffers and the workspaces
held before may differ. -/
theorem solve_reordered (determined : p.Determined) (order : Equiv.Perm (Fin p.residualCount))
    {x residuals residuals' diag : Array ℝ} {w w' : Workspace ℝ}
    (h : Accepted p c x residuals diag w)
    (h' : Accepted (p.reordered order) c x residuals' diag w') :
    let run := solve p c x residuals diag w
    let run' := solve (p.reordered order) c x residuals' diag w'
    points run'.calls = points run.calls ∧ run'.outcome = run.outcome ∧ run'.x = run.x ∧
      run'.diag = run.diag ∧ run'.events = run.events ∧
      run'.calls = run.calls.map (·.reorder order) ∧
      ∃ fvec : Vector ℝ p.residualCount,
        run.residuals = fvec.toArray ∧ run'.residuals = (reorder order fvec).toArray := by
  obtain ⟨info, s, stopped, ended⟩ := solve_stops h
  obtain ⟨info', s', stopped', ended'⟩ := solve_stops h'
  have begins : Stage.Reordered h.tall order h.first h'.first :=
    State.start_reordered determined ..
  have same := Stage.run_reordered determined h.gtol_nonneg h.factor_pos
    (stepBound (c.budget p.parameterCount)) h.first_prepared begins
  rw [Accepted.first, Accepted.first, stopped, stopped'] at same
  intro run run'
  change run = _ at ended
  change run' = _ at ended'
  rw [ended, ended']
  cases same with
  | stopped _ same =>
    refine ⟨?_, same.outcome_eq info, congrArg Vector.toArray same.x,
      congrArg Vector.toArray same.diag, same.events, same.calls, s.residuals, rfl,
      congrArg Vector.toArray same.residuals⟩
    exact (congrArg points same.calls).trans (points_reorder order s.calls)

/-- Two residuals that pull a single parameter to zero and to one. -/
noncomputable def tug : Problem ℝ where
  residualCount := 2
  parameterCount := 1
  eval _ point buffer := ⟨overwrite buffer fun i => point.toList.headD 0 - (i.val : ℝ), none⟩

theorem tug_determined : tug.Determined := by
  intro number point buffer buffer'
  simp only [tug, overwrite_eq_ofFn]

theorem tug_accepted : Accepted tug .default #[0] #[0, 0] #[1] (.new 2 1) where
  size_x := rfl
  size_residuals := rfl
  size_diag := rfl
  rows := rfl
  cols := rfl
  valid := by
    change Config.validate (.default : Config ℝ) 2 1 #[1] = .ok ()
    have root : (0 : ℝ) ≤ √Numeric.epsilon := Real.sqrt_nonneg _
    have radius : (0 : ℝ) < Numeric.ofNat 100 := Nat.cast_pos.mpr (by decide)
    simp [Config.validate, Config.default, Config.budget, root, radius]

/-- Its two residuals exchanged. -/
theorem solve_reordered_tug :
    let exchange : Equiv.Perm (Fin 2) := .swap 0 1
    let run := solve tug .default #[0] #[0, 0] #[1] (.new 2 1)
    let run' := solve (tug.reordered exchange) .default #[0] #[0, 0] #[1] (.new 2 1)
    points run'.calls = points run.calls ∧ run'.outcome = run.outcome ∧ run'.x = run.x ∧
      ∃ a b, run.residuals = #[a, b] ∧ run'.residuals = #[b, a] := by
  intro exchange run run'
  obtain ⟨points, outcome, x, -, -, -, fvec, residuals, residuals'⟩ :=
    solve_reordered tug_determined exchange tug_accepted (tug_accepted.reordered exchange)
  have pair (v : Vector ℝ 2) : v = #v[v.get 0, v.get 1] :=
    eq_of_get_eq fun i => by fin_cases i <;> rfl
  have exchanged (v : Vector ℝ 2) : reorder exchange v = #v[v.get 1, v.get 0] := by
    rw [pair (reorder exchange v), get_reorder, get_reorder, Equiv.swap_apply_left,
      Equiv.swap_apply_right]
  exact ⟨points, outcome, x, _, _, residuals.trans (congrArg Vector.toArray (pair fvec)),
    residuals'.trans (congrArg Vector.toArray (exchanged fvec))⟩

end LeastSquares
