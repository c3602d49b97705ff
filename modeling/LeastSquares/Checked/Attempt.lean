import LeastSquares.Checked.Damping
import LeastSquares.Solver.Attempt

/-!
# Trying a step on checked storage

The search, the trial point, the evaluation and the verdict, loop by loop and entry by entry. The
search is lent the buffer of the residuals at trial points, which has an entry for each residual.
-/
namespace LeastSquares.Checked

variable {α : Type} [Scalar α] {m n : Nat}

/-- Turn entry `j` of the search direction into that of the step, of the point it leads to and of
its scaled form. -/
def placeEntry (x diag : Vector α n) (j : Nat) (state : Vector α n × Vector α n × Vector α n) :
    Option (Vector α n × Vector α n × Vector α n) := do
  let (step, point, scaled) := state
  let step ← write step j (-(← read step j))
  let point ← write point j ((← read x j) + (← read step j))
  let scaled ← write scaled j ((← read diag j) * (← read step j))
  return (step, point, scaled)

/-- Add column `j` of the image to the rows of the triangle, the last of which starts here. -/
def addColumn (r : Columns α m n) (pivots : Vector Nat n) (step : Vector α n) (j : Nat)
    (w : Vector α n) : Option (Vector α n) := do
  let w ← write w j 0
  let t ← read step (← read pivots j)
  fill 0 (j + 1) (fun i w => do return (← read w i) + (← readEntry r i j) * t) w

def image (r : Columns α m n) (pivots : Vector Nat n) (step w : Vector α n) :
    Option (Vector α n) :=
  loop 0 n (addColumn r pivots step) w

section

variable {p : Problem α}

def searchStep (s : State p) : Option (State p) := do
  let b := s.buffers
  let scratch : Scratch α p.residualCount p.parameterCount p.residualCount :=
    { r := b.jacobian, x := b.step, sdiag := b.point, direction := b.scaled, scaled := b.trial }
  let found ← scratch.search (indices b.pivots) s.diag b.qtf s.region.delta s.region.par
  return { s with
    region := { s.region with par := found.par }
    buffers := { b with
      jacobian := found.scratch.r
      step := found.scratch.x
      point := found.scratch.sdiag
      scaled := found.scratch.direction
      trial := found.scratch.scaled } }

def placeStep (s : State p) : Option (State p) := do
  let (step, point, scaled) ← loop 0 p.parameterCount (placeEntry s.x s.diag)
    (s.buffers.step, s.buffers.point, s.buffers.scaled)
  return { s with buffers := { s.buffers with step, point, scaled } }

def judge (length : α) (s : State p) : Option (State p × Reduction α) := do
  let b := s.buffers
  let trialNorm := norm b.trial.toList
  let scaled ← image b.jacobian (indices b.pivots) b.step b.scaled
  -- The norm is that of a slice.
  let _ ← slice scaled 0 p.parameterCount
  let r := Reduction.measure s.fnorm trialNorm length s.region.par scaled
  let region := s.region.update r s.fnorm trialNorm length
  return ({ s with
    region
    buffers := { b with scaled }
    events := s.events.push (.tried s.nfev region r.ratio trialNorm) }, r)

def accept (s : State p) : Option (State p) := do
  let x := s.buffers.point
  let point ← fill 0 p.parameterCount (fun j _ => do
    return (← read s.diag j) * (← read x j)) s.buffers.point
  return { s with
    x
    residuals := s.buffers.trial
    xnorm := norm point.toList
    fnorm := norm s.buffers.trial.toList
    iterations := s.iterations + 1
    buffers := { s.buffers with point } }

def conclude (c : Config α) (length : α) (s : State p) : Option (Stage p) := do
  let (s, r) ← judge length s
  let s ← (if r.acceptable then accept s else some s)
  match convergence c r s.region.delta s.xnorm with
  | some info => return s.finish info
  | none =>
    match exhaustion (c.budget p.parameterCount) s.nfev r s.region.delta s.xnorm s.gnorm with
    | some info => return s.finish info
    | none => return if r.acceptable then .linearize s else .attempt s

def attempt (c : Config α) (s : State p) : Option (Stage p) := do
  let s ← placeStep (← searchStep s)
  match s.capRegion.evaluateTrial with
  | (evaluated, some e) => return evaluated.stranded.abort e
  | (evaluated, none) => conclude c s.stepLength evaluated

end

end LeastSquares.Checked
