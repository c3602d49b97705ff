import LeastSquares.Solver.State
import LeastSquares.Factor.Pivoted

/-!
# Linearizing at an iterate

The Jacobian is taken by differences and factored, the residuals are turned into the factored
basis, and the cosines between the residuals and the columns are tested. The solve converges here
if they are all small enough.
-/
namespace LeastSquares

variable {α : Type} [Scalar α]

/-- The norms of the columns as scale factors; a column of zeros counts one. -/
def columnScale {n : Nat} (norms diag : Vector α n) : Vector α n :=
  overwrite diag fun j => if norms.get j == 0 then 1 else norms.get j

/-- The largest cosine between the residuals and a column of the Jacobian that is not zero, from
the triangle `r`; zero if the residuals are. -/
def gradientNorm {m n : Nat} (tall : n ≤ m) (r : Columns α m n) (pivots : Vector (Fin n) n)
    (qtf norms : Vector α n) (fnorm : α) : α :=
  if fnorm == 0 then 0
  else
    Fin.foldl n (fun g j =>
      let size := norms.get (pivots.get j)
      if size == 0 then g
      else
        let sum := sumWhere (· ≤ j) fun i => r.lead tall i j * (qtf.get i / fnorm)
        -- A cosine that is not a number gives way to those before it.
        larger g (abs (sum / size))) 0

namespace State

variable {p : Problem α}

/-- The Jacobian at the iterate with no column filled yet. -/
def unfilled (s : State p) : Differencing α p.residualCount p.parameterCount :=
  { x := s.x
    jacobian := s.buffers.jacobian
    buffer := s.buffers.trial
    nfev := s.nfev
    calls := s.calls
    failure := none }

def differentiate (c : Config α) (s : State p) :
    Differencing α p.residualCount p.parameterCount :=
  s.unfilled.run p c.epsfcn s.residuals

/-- The Jacobian in `d`, with the buffers it is factored in. -/
def unfactored (s : State p) (d : Differencing α p.residualCount p.parameterCount) :
    Factor α p.residualCount p.parameterCount :=
  { packed := d.jacobian
    pivots := s.buffers.pivots
    rdiag := s.buffers.step
    norms := s.buffers.point
    reference := s.buffers.scaled }

/-- Factor the Jacobian in `d` and turn the residuals into its basis. The result also gives the
norms of the Jacobian columns. -/
def factorize (tall : p.parameterCount ≤ p.residualCount) (s : State p)
    (d : Differencing α p.residualCount p.parameterCount) : State p × Vector α p.parameterCount :=
  let f := (s.unfactored d).compute true
  let turned := project f.packed (overwrite d.buffer s.residuals.get)
  ({ s with
      x := d.x
      nfev := d.nfev
      calls := d.calls
      -- The diagonal of `R` takes the place of the leading reflector entries, which are of no
      -- further use.
      buffers :=
        { jacobian := f.packed.withDiagonal tall f.rdiag
          pivots := f.pivots
          qtf := overwrite s.buffers.qtf fun j => turned.get (j.castLE tall)
          step := f.rdiag
          point := f.norms
          scaled := f.reference
          trial := turned } }, f.norms)

/-- At the first iterate, set the scale of the variables and the radius. -/
def settle (c : Config α) (norms : Vector α p.parameterCount) (s : State p) : State p :=
  if s.iterations = 0 then
    let diag := match c.scaling with
      | .auto => columnScale norms s.diag
      | .explicit => s.diag
    let scaled := overwrite s.buffers.scaled fun j => diag.get j * s.x.get j
    let xnorm := norm scaled.toList
    { s with
      diag, xnorm
      region := .start c.factor xnorm
      buffers := { s.buffers with scaled } }
  else s

/-- The scale factors, which under automatic scaling follow the column norms upwards. -/
def raisedDiag (c : Config α) (norms : Vector α p.parameterCount) (s : State p) :
    Vector α p.parameterCount :=
  match c.scaling with
  | .auto => overwrite s.diag fun j => larger (s.diag.get j) (norms.get j)
  | .explicit => s.diag

/-- Test the gradient for convergence and make ready for trials. -/
def testGradient (tall : p.parameterCount ≤ p.residualCount) (c : Config α)
    (norms : Vector α p.parameterCount) (s : State p) : Stage p :=
  let s := s.settle c norms
  -- The test is against the column norms, not against the scale factors.
  let gnorm := gradientNorm tall s.buffers.jacobian s.buffers.pivots s.buffers.qtf norms s.fnorm
  if gnorm ≤ c.gtol then State.finish { s with gnorm } .gtolReached
  else .attempt { s with gnorm, diag := s.raisedDiag c norms }

/-- The state in which the unfinished Jacobian `d` leaves a solve: at the point whose evaluation
failed, with what that evaluation left in the buffer. -/
def interrupted (s : State p) (d : Differencing α p.residualCount p.parameterCount) : State p :=
  { s with
    x := d.x
    residuals := d.buffer
    nfev := d.nfev
    calls := d.calls
    buffers := { s.buffers with jacobian := d.jacobian, trial := d.buffer } }

def linearize (tall : p.parameterCount ≤ p.residualCount) (c : Config α) (s : State p) :
    Stage p :=
  let d := s.differentiate c
  match d.failure with
  | some e => (s.interrupted d).abort e
  | none =>
    let (s, norms) := s.factorize tall d
    s.testGradient tall c norms

end State

end LeastSquares
