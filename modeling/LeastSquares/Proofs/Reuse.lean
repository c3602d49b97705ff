import LeastSquares.Proofs.Outcome
import LeastSquares.Spot.Image

/-!
# Solving on used buffers

A solve overwrites every buffer before it reads it, with one exception: the first column of the
first Jacobian is evaluated into whatever the buffer for trials held. A problem that overwrites its
residuals leaves nothing of that unless it fails there. Two solves that were given different buffers
therefore become equal with their first complete Jacobian.
-/
namespace LeastSquares

variable {α : Type}

/-- Whether an evaluation fails, and with what error, depends on its point and its number only; so
does all that a successful evaluation leaves in the buffer. -/
structure Problem.Overwrites (p : Problem α) : Prop where
  failure (number : Nat) (point : Vector α p.parameterCount)
    (buffer buffer' : Vector α p.residualCount) :
    (p.eval number point buffer').failure = (p.eval number point buffer).failure
  buffer (number : Nat) (point : Vector α p.parameterCount)
    (buffer buffer' : Vector α p.residualCount) :
    (p.eval number point buffer).failure = none →
      (p.eval number point buffer').buffer = (p.eval number point buffer).buffer

namespace Problem.Overwrites

variable {p : Problem α}

/-- A successful evaluation takes nothing from the buffer it is given. -/
theorem eval_eq (h : p.Overwrites) {number : Nat} {point : Vector α p.parameterCount}
    {buffer : Vector α p.residualCount} (buffer' : Vector α p.residualCount)
    (success : (p.eval number point buffer).failure = none) :
    p.eval number point buffer' = p.eval number point buffer := by
  have failure := h.failure number point buffer buffer'
  have left := h.buffer number point buffer buffer' success
  cases h₁ : p.eval number point buffer
  cases h₂ : p.eval number point buffer'
  simp_all

theorem interrupted [Scalar α] (h : p.Overwrites) (interruptions : List (Interruption α)) :
    (p.interrupted interruptions).Overwrites where
  failure number point buffer buffer' := by
    simp only [Problem.interrupted]
    split
    · exact h.failure number point buffer buffer'
    · rfl
  buffer number point buffer buffer' success := by
    simp only [Problem.interrupted] at success ⊢
    split at success
    · exact h.buffer number point buffer buffer' success
    · cases success

end Problem.Overwrites

theorem Formula.system_overwrites (formulas : Array Formula) (n : Nat) :
    (system formulas n).Overwrites where
  failure _ _ _ _ := rfl
  buffer _ point buffer buffer' _ := by
    have filled (v : Vector Float formulas.size) := overwriteHead_eq_ofFn v
      fun i : Fin formulas.size => formulas[i].value point.toArray 0
    exact (filled buffer').trans (filled buffer).symm

theorem Formula.fitting_overwrites (f : Formula) (n : Nat) (times observed : Array Float) :
    (f.fitting n times observed).Overwrites where
  failure _ _ _ _ := rfl
  buffer _ point buffer buffer' _ := by
    have filled (v : Vector Float times.size) := overwriteHead_eq_ofFn v
      fun i : Fin times.size => observed.getD i 0 - f.value point.toArray times[i]
    exact (filled buffer').trans (filled buffer).symm

theorem Image.problem_overwrites [Scalar α] (image : Image α) : image.problem.Overwrites where
  failure _ point _ _ := by
    simp only [Image.problem]
    split <;> rfl
  buffer _ point buffer buffer' success := by
    simp only [Image.problem] at success ⊢
    split at success
    next positive =>
      rw [if_pos positive, if_pos positive]
      have filled (v : Vector α image.pixels.size) := overwriteHead_eq_ofFn v
        fun k : Fin image.pixels.size =>
          image.pixels[k] - (Spot.ofInternal point).pixel image.width k
      exact (filled buffer').trans (filled buffer).symm
    next => cases success

/-- The buffer, among those a solve was given, that the evaluation of the given number is made
with. -/
def Fitted.exposed {p : Problem α} (g : Fitted p) : Nat → Option (Vector α p.residualCount)
  | 1 => some g.residuals
  | 2 => some g.buffers.trial
  | _ => none

theorem Fitted.eq_of_exposed {p : Problem α} {g : Fitted p} {number : Nat}
    {buffer : Vector α p.residualCount} (h : g.exposed number = some buffer) :
    number = 1 ∧ g.residuals = buffer ∨ number = 2 ∧ g.buffers.trial = buffer := by
  unfold exposed at h
  split at h
  · exact .inl ⟨rfl, Option.some.inj h⟩
  · exact .inr ⟨rfl, Option.some.inj h⟩
  · cases h

variable [Scalar α]

/-! ### Jacobians -/

namespace Differencing

variable {p : Problem α}

/-- Two Jacobians in progress with `k` columns done, which began as `start` and `start'` and differ
in what their buffers held then. Past the first column the buffers agree unless that column
failed. -/
structure Agree (start start' : Differencing α p.residualCount p.parameterCount) (k : Nat)
    (d d' : Differencing α p.residualCount p.parameterCount) : Prop where
  untouched : k = 0 → d = start ∧ d' = start'
  x : d'.x = d.x
  nfev : d'.nfev = d.nfev
  failure : d'.failure = d.failure
  points : points d'.calls = points d.calls
  filled : d.failure = none → d'.calls = d.calls ∧
    ∀ j : Fin p.parameterCount, j < k → d'.jacobian.get j = d.jacobian.get j
  buffer : 0 < k → d'.buffer = d.buffer ∨ d.failure.isSome ∧ d.nfev = start.nfev + 1 ∧
    d.buffer = (p.eval (start.calls.size + 1) d.x start.buffer).buffer ∧
    d'.buffer = (p.eval (start.calls.size + 1) d.x start'.buffer).buffer

theorem column_agree (overwrites : p.Overwrites) {scale : α}
    {residuals : Vector α p.residualCount} (j : Fin p.parameterCount)
    {start start' d d' : Differencing α p.residualCount p.parameterCount}
    (intact : start.failure = none) (h : Agree start start' j d d') :
    Agree start start' (j + 1) (d.column p scale residuals j)
      (d'.column p scale residuals j) := by
  have point : (d'.probe p scale j).point = (d.probe p scale j).point := by
    simp only [probe, Problem.call, moved, h.x]
  have size : d'.calls.size = d.calls.size := by
    simpa [points] using congrArg List.length h.points
  cases failed : d.failure with
  | some e =>
    have failed' : d'.failure = some e := h.failure.trans failed
    -- Both have failed before and do nothing any more.
    rw [column_of_failed (by rw [failed]; rfl), column_of_failed (by rw [failed']; rfl)]
    have begun : (0 : Nat) < j := by
      rcases Nat.eq_zero_or_pos j with zero | pos
      · obtain ⟨rfl, -⟩ := h.untouched zero
        rw [intact] at failed
        cases failed
      · exact pos
    exact {
      untouched := fun zero => by cases zero
      x := h.x
      nfev := h.nfev
      failure := h.failure
      points := h.points
      filled := fun none => by simp [failed] at none
      buffer := fun _ => h.buffer begun }
  | none =>
    have failed' : d'.failure = none := h.failure.trans failed
    obtain ⟨calls, filled⟩ := h.filled failed
    have failure : (d'.probe p scale j).response.failure =
        (d.probe p scale j).response.failure := by
      simp only [probe, Problem.call, moved, h.x, calls]
      exact overwrites.failure ..
    cases outcome : (d.probe p scale j).response.failure with
    | some e =>
      -- Both fail here, and what the evaluation leaves may depend on the buffers.
      rw [column_of_failure failed outcome, column_of_failure failed' (failure.trans outcome)]
      exact {
        untouched := fun zero => by cases zero
        x := point
        nfev := by simp only [h.nfev]
        failure := rfl
        points := by simp only [points_push, h.points, point]
        filled := fun none => by cases none
        buffer := by
          intro _
          rcases Nat.eq_zero_or_pos j with zero | pos
          · -- The first column is evaluated into what the buffers held at the start.
            obtain ⟨rfl, rfl⟩ := h.untouched zero
            refine .inr ⟨rfl, rfl, rfl, ?_⟩
            simp only [probe, Problem.call, moved, h.x, calls]
          · rcases h.buffer pos with same | ⟨early, -⟩
            · refine .inl ?_
              simp only [probe, Problem.call, moved, h.x, calls, same]
            · simp [failed] at early }
    | none =>
      -- Both succeed, and from here on the buffers are the same.
      have same : d'.probe p scale j = d.probe p scale j := by
        simp only [probe, Problem.call, moved, h.x, calls] at outcome ⊢
        rw [overwrites.eval_eq _ outcome]
      rw [column_of_success failed outcome, column_of_success failed' (failure.trans outcome)]
      exact {
        untouched := fun zero => by cases zero
        x := by simp only [same, h.x]
        nfev := by simp only [h.nfev]
        failure := h.failure
        points := by simp only [points_push, h.points, point]
        filled := by
          intro _
          refine ⟨by simp only [calls, same], ?_⟩
          intro i done
          rw [get_overwriteAt, get_overwriteAt]
          split
          · rw [overwrite_eq_ofFn, overwrite_eq_ofFn, same, h.x]
          next other => exact filled i (by omega)
        buffer := fun _ => .inl (by simp only [same]) }

theorem run_agree (overwrites : p.Overwrites) {epsfcn : α}
    {residuals : Vector α p.residualCount}
    {d d' : Differencing α p.residualCount p.parameterCount} (intact : d.failure = none)
    (h : Agree d d' 0 d d') :
    Agree d d' p.parameterCount (d.run p epsfcn residuals) (d'.run p epsfcn residuals) :=
  foldl_related (Agree d d') h fun j _ _ now => column_agree overwrites j intact now

end Differencing

/-! ### Factorizations -/

/-- A factorization with pivoting starts from the matrix alone. -/
theorem Factor.compute_congr {m n : Nat} {f f' : Factor α m n} (same : f'.packed = f.packed) :
    f'.compute true = f.compute true := by
  have prepared : f'.prepare true = f.prepare true := by
    simp only [prepare, same, overwrite_eq_ofFn, if_true]
  rw [compute, compute, prepared]

namespace State

variable {p : Problem α} {tall : p.parameterCount ≤ p.residualCount} {c : Config α}

theorem factorize_congr {s : State p} {d d' : Differencing α p.residualCount p.parameterCount}
    (x : d'.x = d.x) (nfev : d'.nfev = d.nfev) (calls : d'.calls = d.calls)
    (jacobian : d'.jacobian = d.jacobian) (diag : Vector α p.parameterCount)
    (buffers : Buffers α p.residualCount p.parameterCount) :
    State.factorize tall { s with diag, buffers } d' =
      ({ (s.factorize tall d).1 with diag }, (s.factorize tall d).2) := by
  have factored : (State.unfactored { s with diag, buffers } d').compute true =
      (s.unfactored d).compute true := Factor.compute_congr jacobian
  unfold factorize
  rw [factored]
  simp only [x, nfev, calls, overwrite_eq_ofFn]

/-- At the first iterate, automatic scaling starts from the Jacobian alone. -/
theorem settle_congr {norms : Vector α p.parameterCount} {s : State p}
    (first : s.iterations = 0) {diag : Vector α p.parameterCount}
    (scaling : c.scaling = .explicit → diag = s.diag) :
    State.settle c norms { s with diag } = s.settle c norms := by
  unfold settle
  rw [if_pos first, if_pos first]
  cases mode : c.scaling with
  | auto => simp only [columnScale, overwrite_eq_ofFn]
  | explicit => simp only [scaling mode]

theorem testGradient_congr {norms : Vector α p.parameterCount} {s : State p}
    (first : s.iterations = 0) {diag : Vector α p.parameterCount}
    (scaling : c.scaling = .explicit → diag = s.diag) :
    State.testGradient tall c norms { s with diag } = s.testGradient tall c norms := by
  unfold testGradient
  rw [settle_congr first scaling]

end State

/-! ### Solves -/

variable {p : Problem α}

/-- Two solves aborted before their first Jacobian was complete. They differ at most in the scaling
they were given and in what the failing evaluation left in a buffer they were given. -/
structure State.Stranded (g g' : Fitted p) (s s' : State p) : Prop where
  x : s'.x = s.x
  nfev : s'.nfev = s.nfev
  iterations : s'.iterations = s.iterations
  points : points s'.calls = points s.calls
  diag : s.diag = g.diag
  diag' : s'.diag = g'.diag
  fnorm : s.fnorm = norm s.residuals.toList
  fnorm' : s'.fnorm = norm s'.residuals.toList
  residuals : s'.residuals = s.residuals ∨ ∃ buffer buffer',
    g.exposed s.nfev = some buffer ∧ g'.exposed s.nfev = some buffer' ∧
    s.residuals = (p.eval s.nfev s.x buffer).buffer ∧
    s'.residuals = (p.eval s.nfev s.x buffer').buffer

/-- Two stages of solves that were given `g` and `g'`: either nothing is left of the difference, or
both were aborted before they could lose it. -/
inductive Stage.Agree (g g' : Fitted p) : Stage p → Stage p → Prop where
  | same (stage : Stage p) : Agree g g' stage stage
  | stranded {info : Termination} {s s' : State p} (abort : info.isAbort)
      (h : State.Stranded g g' s s') : Agree g g' (stopped info s) (stopped info s')

namespace State

variable {tall : p.parameterCount ≤ p.residualCount} {c : Config α} {g g' : Fitted p}

/-- The first linearization loses all difference between two solves, unless it fails. -/
theorem linearize_agree (overwrites : p.Overwrites)
    (scaling : c.scaling = .explicit → g'.diag = g.diag)
    {s : State p} (first : s.iterations = 0) (nfev : s.nfev = 1) (size : s.calls.size = 1)
    (diag : s.diag = g.diag) (buffers : s.buffers = g.buffers) :
    Stage.Agree g g' (s.linearize tall c)
      (State.linearize tall c { s with diag := g'.diag, buffers := g'.buffers }) := by
  let s' : State p := { s with diag := g'.diag, buffers := g'.buffers }
  have taken : Differencing.Agree s.unfilled s'.unfilled p.parameterCount (s.differentiate c)
      (s'.differentiate c) := by
    refine Differencing.run_agree overwrites rfl ?_
    exact ⟨fun _ => ⟨rfl, rfl⟩, rfl, rfl, rfl, rfl, fun _ => ⟨rfl, fun _ done => by cases done⟩,
      fun begun => absurd begun (Nat.lt_irrefl 0)⟩
  change Stage.Agree g g' _ (s'.linearize tall c)
  cases failed : (s.differentiate c).failure with
  | some e =>
    have failed' := taken.failure.trans failed
    simp only [linearize, failed, failed']
    have begun : 0 < p.parameterCount := by
      rcases Nat.eq_zero_or_pos p.parameterCount with zero | pos
      · rw [(taken.untouched zero).1] at failed
        cases failed
      · exact pos
    refine .stranded rfl {
      x := taken.x
      nfev := taken.nfev
      iterations := rfl
      points := taken.points
      diag := diag
      diag' := rfl
      fnorm := rfl
      fnorm' := rfl
      residuals := ?_ }
    -- An abort after the first column leaves the same; one at the first column is the second call.
    rcases taken.buffer begun with same | ⟨-, second, left, left'⟩
    · exact .inl same
    · have number : (s.differentiate c).nfev = 2 :=
        second.trans (congrArg (· + 1) nfev)
      simp only [unfilled, size] at left left'
      refine .inr ⟨g.buffers.trial, g'.buffers.trial, ?_, ?_, ?_, ?_⟩
      · exact congrArg g.exposed number
      · exact congrArg g'.exposed number
      · simp only [interrupted, number, left, buffers]
      · simp only [interrupted, number]
        exact left'
  | none =>
    have failed' := taken.failure.trans failed
    simp only [linearize, failed, failed']
    -- The whole matrix is the same, and the factorization reads nothing but the matrix.
    obtain ⟨calls, filled⟩ := taken.filled failed
    have factorized := @factorize_congr _ _ _ tall s _ _ taken.x taken.nfev calls
      (eq_of_get_eq fun j => filled j j.isLt) g'.diag g'.buffers
    have tested := @testGradient_congr _ _ _ tall c (s.factorize tall (s.differentiate c)).2
      (s.factorize tall (s.differentiate c)).1 first g'.diag
      fun explicit => (scaling explicit).trans diag.symm
    simp only [s', factorized, tested]
    exact .same _

theorem run_agree {stage stage' : Stage p} (steps : Nat) (h : Stage.Agree g g' stage stage') :
    Stage.Agree g g' (stage.run tall c steps) (stage'.run tall c steps) := by
  cases h with
  | same => exact .same _
  | stranded abort stranded =>
    cases steps with
    | zero => exact .stranded abort stranded
    | succ steps => exact .stranded abort stranded

theorem start_agree (overwrites : p.Overwrites) (given : g'.x = g.x)
    (scaling : c.scaling = .explicit → g'.diag = g.diag) (steps : Nat) :
    Stage.Agree g g'
      ((State.start c g.x g.residuals g.diag g.buffers).run tall c (steps + 1))
      ((State.start c g'.x g'.residuals g'.diag g'.buffers).run tall c (steps + 1)) := by
  have failure := overwrites.failure 1 g.x g.residuals g'.residuals
  rw [given]
  unfold start
  simp only [Problem.call, List.size_toArray, List.length_nil, Nat.zero_add]
  cases outcome : (p.eval 1 g.x g.residuals).failure with
  | some e =>
    simp only [failure.trans outcome]
    refine run_agree _ (.stranded rfl {
      x := rfl
      nfev := rfl
      iterations := rfl
      points := rfl
      diag := rfl
      diag' := rfl
      fnorm := rfl
      fnorm' := rfl
      residuals := .inr ⟨g.residuals, g'.residuals, rfl, rfl, rfl, rfl⟩ })
  | none =>
    -- The residual buffers are the same after the first call; the rest is lost by the next step.
    simp only [overwrites.eval_eq g'.residuals outcome, outcome]
    exact run_agree steps (linearize_agree overwrites scaling
      (s := opened c g.diag g.buffers ⟨.start, g.x, p.eval 1 g.x g.residuals⟩) rfl rfl rfl rfl rfl)

end State

/-- Two solves from one point, given buffers that may differ in all they hold, and scalings that may
differ if they are not read: either they end in the same state, or both are aborted before their
first Jacobian is complete. -/
theorem solveFrom_agree (overwrites : p.Overwrites) (tall : p.parameterCount ≤ p.residualCount)
    (c : Config α) {g g' : Fitted p} (given : g'.x = g.x)
    (scaling : c.scaling = .explicit → g'.diag = g.diag) :
    (solveFrom tall c g'.x g'.residuals g'.diag g'.buffers).1 =
      (solveFrom tall c g.x g.residuals g.diag g.buffers).1 ∧
    ((solveFrom tall c g'.x g'.residuals g'.diag g'.buffers).2 =
        (solveFrom tall c g.x g.residuals g.diag g.buffers).2 ∨
      (solveFrom tall c g.x g.residuals g.diag g.buffers).1.isAbort ∧
      State.Stranded g g' (solveFrom tall c g.x g.residuals g.diag g.buffers).2
        (solveFrom tall c g'.x g'.residuals g'.diag g'.buffers).2) := by
  have agree := @State.start_agree _ _ _ tall c g g' overwrites given scaling
    (2 * c.budget p.parameterCount)
  unfold solveFrom stepBound
  generalize (State.start c g.x g.residuals g.diag g.buffers).run tall c
    (2 * c.budget p.parameterCount + 1) = stage at agree ⊢
  generalize (State.start c g'.x g'.residuals g'.diag g'.buffers).run tall c
    (2 * c.budget p.parameterCount + 1) = stage' at agree ⊢
  cases agree with
  | same => exact ⟨rfl, .inl rfl⟩
  | stranded abort stranded => exact ⟨rfl, .inr ⟨abort, stranded⟩⟩

/-- Whatever the buffers held, an accepted solve ends in the same way; in the same state, too,
unless it is aborted before its first Jacobian is complete. -/
theorem Accepted.agree (overwrites : p.Overwrites) {c : Config α}
    {x residuals residuals' diag diag' : Array α} {w w' : Workspace α}
    (h : Accepted p c x residuals diag w) (h' : Accepted p c x residuals' diag' w')
    (scaling : c.scaling = .explicit → diag' = diag) :
    h'.outcome.1 = h.outcome.1 ∧ (h'.outcome.2 = h.outcome.2 ∨
      h.outcome.1.isAbort ∧ State.Stranded h.given h'.given h.outcome.2 h'.outcome.2) :=
  solveFrom_agree overwrites h.tall c rfl fun explicit =>
    Vector.toArray_inj.mp (scaling explicit)

/-- A solve that is not aborted hands back the same, whatever the buffers held. -/
theorem solve_eq_of_accepted (overwrites : p.Overwrites) {c : Config α}
    {x residuals residuals' diag diag' : Array α} {w w' : Workspace α}
    (h : Accepted p c x residuals diag w) (h' : Accepted p c x residuals' diag' w')
    (scaling : c.scaling = .explicit → diag' = diag)
    (completed : (solve p c x residuals diag w).outcome.info.isAbort = false) :
    solve p c x residuals' diag' w' = solve p c x residuals diag w := by
  rw [solve_of_accepted h] at completed ⊢
  rw [solve_of_accepted h']
  obtain ⟨info, same | ⟨abort, -⟩⟩ := h.agree overwrites h' scaling
  · rw [info, same]
  · exact absurd (completed.symm.trans abort) Bool.false_ne_true

/-- A solve leaves no trace in the next one: from the same point and under the same configuration
two solves evaluate the same points, whatever the residuals, the scale factors that are not read and
the workspace were left with, and end in the same way. Unless they are aborted they are the same in
all they hand back, with the factorization in the workspace. -/
theorem solve_forgets (overwrites : p.Overwrites) {c : Config α}
    {x residuals residuals' diag diag' : Array α} {w w' : Workspace α}
    (h : Accepted p c x residuals diag w) (size_residuals : residuals'.size = residuals.size)
    (size_diag : diag'.size = diag.size) (scaling : c.scaling = .explicit → diag' = diag)
    (rows : w'.residualCount = w.residualCount) (cols : w'.parameterCount = w.parameterCount) :
    let run := solve p c x residuals diag w
    let run' := solve p c x residuals' diag' w'
    points run'.calls = points run.calls ∧ run'.outcome.info = run.outcome.info ∧
      (run.outcome.info.isAbort = false → run' = run) := by
  have h' := h.of_sizes size_residuals size_diag scaling rows cols
  intro run run'
  obtain ⟨info, agree⟩ := h.agree overwrites h' scaling
  have ended : run = .ended h.outcome.1 h.outcome.2 := solve_of_accepted h
  have ended' : run' = .ended h'.outcome.1 h'.outcome.2 := solve_of_accepted h'
  refine ⟨?_, ?_, solve_eq_of_accepted overwrites h h' scaling⟩
  · rw [ended, ended']
    rcases agree with same | ⟨-, stranded⟩
    · rw [same]
      rfl
    · exact stranded.points
  · rw [ended, ended']
    exact info

/-- A solve that leaves its last trial in the workspace. -/
def solveFromThree : Run rootTwo :=
  solve rootTwo (limited 4) #[3] #[0] #[1] (.new 1 1)

/-- A solve on a used workspace, with residuals and scale factors that it does not read. -/
theorem solve_forgets_rootTwo :
    (solveFromThree.workspace.buffers.trial.toArray == #[0]) = false ∧
      solve rootTwo (limited 4) #[0.1] #[9] #[5] solveFromThree.workspace =
        solveRootTwo (limited 4) := by
  have used : (solveFromThree.workspace.buffers.trial.toArray == #[0]) = false := by
    decide +kernel
  have shape : solveFromThree.SameShape #[3] #[0] #[1] (.new 1 1) := solve_sameShape ..
  have spent : (solveRootTwo (limited 4)).outcome.info = .maxfevReached := by decide +kernel
  have accepted : Accepted rootTwo (limited 4) #[0.1] #[0] #[1] (.new 1 1) :=
    accepted_of_info_ne fun refused => by cases spent.symm.trans refused
  obtain ⟨-, -, same⟩ := @solve_forgets _ _ rootTwo (Formula.system_overwrites _ _) (limited 4)
    #[0.1] #[0] #[9] #[1] #[5] (.new 1 1) solveFromThree.workspace accepted (by decide) (by decide)
    nofun shape.rows shape.cols
  exact ⟨used, same (congrArg Termination.isAbort spent)⟩

/-- Two solves on workspaces of one shape agree on the iterate, the scaling, the way they ended and
both counts, and unless they are aborted also on the residuals and their norm. -/
theorem solve_reused (overwrites : p.Overwrites) (c : Config α) (x residuals diag : Array α)
    {w w' : Workspace α} (rows : w'.residualCount = w.residualCount)
    (cols : w'.parameterCount = w.parameterCount) :
    let run := solve p c x residuals diag w
    let run' := solve p c x residuals diag w'
    run'.x = run.x ∧ run'.diag = run.diag ∧ run'.outcome.info = run.outcome.info ∧
      run'.outcome.nfev = run.outcome.nfev ∧ run'.outcome.iterations = run.outcome.iterations ∧
      (run.outcome.info.isAbort = false →
        run'.residuals = run.residuals ∧ run'.outcome.fnorm = run.outcome.fnorm) := by
  by_cases h : Accepted p c x residuals diag w
  · have h' := h.of_shape rows cols
    rw [solve_of_accepted h, solve_of_accepted h']
    obtain ⟨info, same | ⟨abort, stranded⟩⟩ := h.agree overwrites h' fun _ => rfl
    · rw [info, same]
      exact ⟨rfl, rfl, rfl, rfl, rfl, fun _ => ⟨rfl, rfl⟩⟩
    · refine ⟨?_, ?_, info, stranded.nfev, stranded.iterations, ?_⟩
      · exact congrArg Vector.toArray stranded.x
      · exact congrArg Vector.toArray (stranded.diag'.trans stranded.diag.symm)
      · intro completed
        exact absurd (completed.symm.trans abort) Bool.false_ne_true
  · have h' : ¬ Accepted p c x residuals diag w' :=
      fun accepted => h (accepted.of_shape rows.symm cols.symm)
    obtain ⟨e, rejected⟩ := solve_of_not_accepted h
    obtain ⟨e', rejected'⟩ := solve_of_not_accepted h'
    rw [rejected, rejected']
    exact ⟨rfl, rfl, rfl, rfl, rfl, fun _ => ⟨rfl, rfl⟩⟩

/-! ### What an abort leaves -/

/-- A solve aborted at its second evaluation leaves what that evaluation made of the buffer for
trials. -/
theorem Accepted.residuals_of_second {c : Config α} {x residuals diag : Array α}
    {w : Workspace α} (h : Accepted p c x residuals diag w) (aborted : h.outcome.1.isAbort)
    (second : h.outcome.2.nfev = 2) :
    h.outcome.2.residuals = (p.eval 2 h.outcome.2.x h.given.buffers.trial).buffer := by
  have recorded := solveFrom_recorded h.tall c h.given.x h.given.residuals h.given.diag
    h.given.buffers
  change (Stage.stopped h.outcome.1 h.outcome.2).Recorded at recorded
  rw [Stage.Recorded, if_pos aborted] at recorded
  -- The failing call is the last of two, so it is the first one of the first Jacobian.
  obtain ⟨e, -, earlier, last, calls, -, -, point, buffer⟩ := recorded.failed
  have size : earlier.size = 1 := by
    have count := recorded.nfev.symm.trans second
    rw [calls, Array.size_push] at count
    omega
  have found : h.outcome.2.calls[1]? = some last := by
    rw [calls, ← size]
    exact Array.getElem?_push_size
  have response := solveFrom_second h.tall c h.given.x h.given.residuals h.given.diag
    h.given.buffers (Config.pos_of_validate h.valid) found
  rw [← buffer, ← point, response]

/-- Two aborted solves on workspaces of one shape leave the same residuals if and only if the abort
did not come at the second evaluation, or that evaluation makes the same of what the two buffers for
trials held. -/
theorem Accepted.residuals_eq_iff (overwrites : p.Overwrites) {c : Config α}
    {x residuals diag : Array α} {w w' : Workspace α} (h : Accepted p c x residuals diag w)
    (h' : Accepted p c x residuals diag w') (aborted : h.outcome.1.isAbort) :
    h'.outcome.2.residuals = h.outcome.2.residuals ↔ (h.outcome.2.nfev = 2 →
      (p.eval 2 h.outcome.2.x h'.given.buffers.trial).buffer =
        (p.eval 2 h.outcome.2.x h.given.buffers.trial).buffer) := by
  obtain ⟨info, agree⟩ := h.agree overwrites h' fun _ => rfl
  have shared : h'.outcome.2.x = h.outcome.2.x ∧ h'.outcome.2.nfev = h.outcome.2.nfev := by
    rcases agree with same | ⟨-, stranded⟩
    · rw [same]
      exact ⟨rfl, rfl⟩
    · exact ⟨stranded.x, stranded.nfev⟩
  constructor
  · intro same second
    have left := h.residuals_of_second aborted second
    have left' := h'.residuals_of_second (info ▸ aborted) (shared.2.trans second)
    rw [shared.1] at left'
    rw [← left, ← left', same]
  · intro harmless
    rcases agree with same | ⟨-, stranded⟩
    · rw [same]
    · rcases stranded.residuals with same | ⟨buffer, buffer', exposed, exposed', left, left'⟩
      · exact same
      · -- The residual buffer is common to both; what they may differ in is the buffer for trials.
        rw [left, left']
        rcases Fitted.eq_of_exposed exposed with ⟨first, rfl⟩ | ⟨second, rfl⟩
        · rw [first] at exposed'
          cases exposed'
          rfl
        · rw [second] at exposed' ⊢
          cases exposed'
          exact harmless second

theorem Accepted.fnorm_eq {c : Config α} {x residuals diag : Array α} {w : Workspace α}
    (h : Accepted p c x residuals diag w) :
    h.outcome.2.fnorm = norm h.outcome.2.residuals.toList := by
  have recorded := solveFrom_recorded h.tall c h.given.x h.given.residuals h.given.diag
    h.given.buffers
  change (Stage.stopped h.outcome.1 h.outcome.2).Recorded at recorded
  rw [Stage.Recorded] at recorded
  split at recorded
  · exact recorded.fnorm
  · exact recorded.fnorm

theorem Accepted.toArray_trial {c : Config α} {x residuals diag : Array α} {w : Workspace α}
    (h : Accepted p c x residuals diag w) :
    h.given.buffers.trial.toArray = w.buffers.trial.toArray := by
  have cast {m n : Nat} (rows : w.residualCount = m) (cols : w.parameterCount = n) :
      (w.cast rows cols).trial.toArray = w.buffers.trial.toArray := by
    subst rows cols
    rfl
  exact cast h.rows h.cols

/-- An aborted solve on a used workspace leaves the residuals, and their norm, that it would have
left on a new one, if and only if the abort did not come at the second evaluation or that evaluation
makes of the used buffer for trials what it makes of zeros. -/
theorem solve_aborted_iff (overwrites : p.Overwrites) (c : Config α) (x residuals diag : Array α)
    {w : Workspace α} {m n : Nat} (rows : w.residualCount = m) (cols : w.parameterCount = n)
    (aborted : (solve p c x residuals diag w).outcome.info.isAbort) :
    let run := solve p c x residuals diag w
    let alone := solve p c x residuals diag (.new m n)
    ∃ (point : Vector α p.parameterCount) (used : Vector α p.residualCount),
      run.x = point.toArray ∧ used.toArray = w.buffers.trial.toArray ∧
      (run.outcome.nfev = 2 → run.residuals = (p.eval 2 point used).buffer.toArray) ∧
      (run.residuals = alone.residuals ∧ run.outcome.fnorm = alone.outcome.fnorm ↔
        (run.outcome.nfev = 2 → (p.eval 2 point used).buffer =
          (p.eval 2 point (Vector.replicate p.residualCount 0)).buffer)) := by
  have h : Accepted p c x residuals diag w := by
    apply accepted_of_info_ne
    intro refused
    rw [refused] at aborted
    cases aborted
  have h' : Accepted p c x residuals diag (.new m n) := h.of_shape rows.symm cols.symm
  rw [solve_of_accepted h] at aborted ⊢
  rw [solve_of_accepted h']
  have zeros : h'.given.buffers.trial = Vector.replicate p.residualCount 0 := by
    apply Vector.toArray_inj.mp
    rw [h'.toArray_trial, ← h'.rows]
    rfl
  refine ⟨h.outcome.2.x, h.given.buffers.trial, rfl, h.toArray_trial, ?_, ?_⟩
  · intro second
    exact congrArg Vector.toArray (h.residuals_of_second aborted second)
  · rw [← zeros]
    constructor
    · rintro ⟨same, -⟩ second
      exact ((h.residuals_eq_iff overwrites h' aborted).mp
        (Vector.toArray_inj.mp same).symm second).symm
    · intro harmless
      have same := (h.residuals_eq_iff overwrites h' aborted).mpr fun second =>
        (harmless second).symm
      refine ⟨congrArg Vector.toArray same.symm, ?_⟩
      change h.outcome.2.fnorm = h'.outcome.2.fnorm
      rw [h.fnorm_eq, h'.fnorm_eq, same]

end LeastSquares
