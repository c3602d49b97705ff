import LeastSquares.Solver.State
import LeastSquares.Damping.Search

/-!
# Trying a step

The damping search gives a step within the region, the residuals are evaluated where it leads,
and the region is adapted to how well the linear model predicted them. A good step becomes the
next iterate. Each trial costs one evaluation and ends with all the tests that may stop a solve.
-/
namespace LeastSquares

variable {α : Type} [Scalar α]

/-- Whether actual and predicted reduction are both at most `tolerance` and the model is not
beaten by more than a factor of two. -/
def Reduction.within (r : Reduction α) (tolerance : α) : Bool :=
  abs r.actual ≤ tolerance && r.predicted ≤ tolerance && 0.5 * r.ratio ≤ 1

def convergence (c : Config α) (r : Reduction α) (delta xnorm : α) : Option Termination :=
  let reduced := r.within c.ftol
  let close : Bool := delta ≤ c.xtol * xnorm
  if reduced && close then some .ftolAndXtolReached
  else if reduced then some .ftolReached
  else if close then some .xtolReached
  else none

/-- The reason to give up after a trial, if any. Of several the last one listed counts. -/
def exhaustion (budget nfev : Nat) (r : Reduction α) (delta xnorm gnorm : α) :
    Option Termination :=
  -- A reason outweighs those below it.
  if gnorm ≤ Numeric.epsilon then some .gtolTooSmall
  else if delta ≤ Numeric.epsilon * xnorm then some .xtolTooSmall
  else if r.within Numeric.epsilon then some .ftolTooSmall
  else if budget ≤ nfev then some .maxfevReached
  else none

namespace State

variable {p : Problem α}

/-- Search the damping at the current region. The step is left in `buffers.step`. -/
def searchStep (tall : p.parameterCount ≤ p.residualCount) (s : State p) : State p :=
  let b := s.buffers
  let found := Triangular.search tall ⟨b.jacobian, b.pivots, b.qtf⟩ s.diag s.region.delta
    s.region.par
    { x := b.step
      sdiag := b.point
      direction := b.scaled
      -- The head of the trial buffer is free until the trial is evaluated.
      scaled := Vector.ofFn fun j => b.trial.get (j.castLE tall) }
  { s with
    region := { s.region with par := found.par }
    buffers := { b with
      jacobian := found.r
      step := found.buffers.x
      point := found.buffers.sdiag
      scaled := found.buffers.direction
      trial := overwriteHead b.trial found.buffers.scaled.get } }

/-- Turn the search direction into the step, with the point it leads to and its scaled form. -/
def placeStep (s : State p) : State p :=
  let step := overwrite s.buffers.step fun j => -s.buffers.step.get j
  { s with
    buffers := { s.buffers with
      step
      point := overwrite s.buffers.point fun j => s.x.get j + step.get j
      scaled := overwrite s.buffers.scaled fun j => s.diag.get j * step.get j } }

def stepLength (s : State p) : α :=
  norm s.buffers.scaled.toList

/-- Until the first step is taken, trust no further than it goes. -/
def capRegion (s : State p) : State p :=
  if s.nfev ≤ p.parameterCount + 1 then { s with region := s.region.cap s.stepLength } else s

/-- Evaluate the residuals at the trial point. The result also gives the error, if any. -/
def evaluateTrial (s : State p) : State p × Option (Error α) :=
  let call := p.call s.calls .trial s.buffers.point s.buffers.trial
  ({ s with
      nfev := s.nfev + 1
      calls := s.calls.push call
      buffers := { s.buffers with trial := call.response.buffer } }, call.response.failure)

/-- Judge the step and adapt the region, where `length` is its scaled length. -/
def judge (tall : p.parameterCount ≤ p.residualCount) (length : α) (s : State p) :
    State p × Reduction α :=
  let b := s.buffers
  let trialNorm := norm b.trial.toList
  -- The image takes the place of the scaled step, whose length is known by now.
  let image := Reduction.image tall b.jacobian b.pivots b.step b.scaled
  let r := Reduction.measure s.fnorm trialNorm length s.region.par image
  let region := s.region.update r s.fnorm trialNorm length
  ({ s with
      region
      buffers := { b with scaled := image }
      events := s.events.push (.tried s.nfev region r.ratio trialNorm) }, r)

def accept (s : State p) : State p :=
  let x := overwrite s.x s.buffers.point.get
  let point := overwrite s.buffers.point fun j => s.diag.get j * x.get j
  { s with
    x
    residuals := overwrite s.residuals s.buffers.trial.get
    xnorm := norm point.toList
    fnorm := norm s.buffers.trial.toList
    iterations := s.iterations + 1
    buffers := { s.buffers with point } }

/-- The state in which a failed evaluation of a trial leaves a solve: at the trial point, with what
the evaluation left in the buffer. -/
def stranded (s : State p) : State p :=
  { s with x := s.buffers.point, residuals := s.buffers.trial }

/-- Judge a trial of scaled length `length` whose residuals are in, take a good step, and decide how
to go on: stop, linearize at the new iterate, or try again. -/
def conclude (tall : p.parameterCount ≤ p.residualCount) (c : Config α) (length : α)
    (s : State p) : Stage p :=
  let (s, r) := s.judge tall length
  let s := if r.acceptable then s.accept else s
  -- The tests see the iterate and the region that the trial has led to.
  match convergence c r s.region.delta s.xnorm with
  | some info => s.finish info
  | none =>
    match exhaustion (c.budget p.parameterCount) s.nfev r s.region.delta s.xnorm s.gnorm with
    | some info => s.finish info
    | none => if r.acceptable then .linearize s else .attempt s

def attempt (tall : p.parameterCount ≤ p.residualCount) (c : Config α) (s : State p) : Stage p :=
  let s := (s.searchStep tall).placeStep
  match s.capRegion.evaluateTrial with
  | (evaluated, some e) => evaluated.stranded.abort e
  | (evaluated, none) => evaluated.conclude tall c s.stepLength

end State

end LeastSquares
