import LeastSquares.Checked.Factor
import LeastSquares.Solver.Linearize

/-!
# Linearizing on checked storage

The Jacobian by differences, its factorization, the residuals in the factored basis and the test of
the gradient, loop by loop and entry by entry.
-/
namespace LeastSquares.Checked

variable {α : Type} [Scalar α] {m n : Nat}

/-! ### The Jacobian -/

/-- Fill column `j`, unless an earlier one failed. -/
def fillDifferences (p : Problem α) (scale : α) (residuals : Vector α m) (j : Nat)
    (d : Differencing α m n) : Option (Differencing α m n) :=
  if d.failure.isSome then some d
  else do
    let coordinate ← read d.x j
    let h := differenceStep scale coordinate
    let point ← write d.x j (coordinate + h)
    let call := p.call d.calls (.column j) point d.buffer
    let buffer := call.response.buffer
    let d := { d with x := call.point, buffer, nfev := d.nfev + 1, calls := d.calls.push call }
    match call.response.failure with
    | some e => some { d with failure := some e }
    | none => do
      let x ← write d.x j coordinate
      let jacobian ← fillColumn 0 m j (fun i _ => do
        return ((← read buffer i) - (← read residuals i)) / h) d.jacobian
      return { d with x, jacobian }

def differentiate (p : Problem α) (epsfcn : α) (residuals : Vector α m)
    (d : Differencing α m n) : Option (Differencing α m n) :=
  loop 0 n (fillDifferences p (differenceScale epsfcn) residuals) d

/-! ### The residuals in the factored basis -/

/-- Apply the reflector in column `j` to `w`. -/
def reflectVector (j : Nat) (a : Columns α m n) (w : Vector α m) : Option (Vector α m) := do
  let lead ← readEntry a j j
  if lead == 0 then return w
  else
    let product ← sum j m fun i => do return (← readEntry a i j) * (← read w i)
    let t := product / lead
    fill j m (fun i w => do return (← read w i) - t * (← readEntry a i j)) w

/-- Apply the reflector in column `j`, give its leading entry up for the diagonal of `R`, and keep
the entry of the projection that is final. -/
def projectRow (rdiag : Vector α n) (j : Nat) (state : Columns α m n × Vector α n × Vector α m) :
    Option (Columns α m n × Vector α n × Vector α m) := do
  let (a, qtf, w) := state
  let w ← reflectVector j a w
  let a ← writeEntry a j j (← read rdiag j)
  let qtf ← write qtf j (← read w j)
  return (a, qtf, w)

/-! ### The gradient -/

def columnScale (norms diag : Vector α n) : Option (Vector α n) :=
  fill 0 n (fun j _ => do
    let size ← read norms j
    return if size == 0 then 1 else size) diag

def raiseScale (norms diag : Vector α n) : Option (Vector α n) :=
  fill 0 n (fun j diag => do return larger (← read diag j) (← read norms j)) diag

def gradientNorm (r : Columns α m n) (pivots : Vector Nat n) (qtf norms : Vector α n) (fnorm : α) :
    Option α :=
  if fnorm == 0 then some 0
  else
    loop 0 n (fun j g => do
      let size ← read norms (← read pivots j)
      if size == 0 then return g
      else
        let product ← sum 0 (j + 1) fun i => do
          return (← readEntry r i j) * ((← read qtf i) / fnorm)
        return larger g (abs (product / size))) 0

/-! ### The step of a solve -/

section

variable {p : Problem α}

def factorize (s : State p) (d : Differencing α p.residualCount p.parameterCount) :
    Option (State p × Vector α p.parameterCount) := do
  let f ← Factor.compute true
    { packed := d.jacobian
      pivots := indices s.buffers.pivots
      rdiag := s.buffers.step
      norms := s.buffers.point
      reference := s.buffers.scaled }
  let (jacobian, qtf, turned) ← loop 0 p.parameterCount (projectRow f.rdiag)
    (f.packed, s.buffers.qtf, s.residuals)
  return ({ s with
    x := d.x
    nfev := d.nfev
    calls := d.calls
    buffers :=
      { jacobian, qtf
        pivots := ← pivots? f.pivots
        step := f.rdiag
        point := f.norms
        scaled := f.reference
        trial := turned } }, f.norms)

def settle (c : Config α) (norms : Vector α p.parameterCount) (s : State p) : Option (State p) :=
  if s.iterations = 0 then do
    let diag ← (match c.scaling with
      | .auto => columnScale norms s.diag
      | .explicit => some s.diag)
    let scaled ← fill 0 p.parameterCount (fun j _ => do
      return (← read diag j) * (← read s.x j)) s.buffers.scaled
    let xnorm := norm scaled.toList
    return { s with
      diag, xnorm
      region := .start c.factor xnorm
      buffers := { s.buffers with scaled } }
  else some s

def testGradient (c : Config α) (norms : Vector α p.parameterCount) (s : State p) :
    Option (Stage p) := do
  let s ← settle c norms s
  let gnorm ← gradientNorm s.buffers.jacobian (indices s.buffers.pivots) s.buffers.qtf norms s.fnorm
  if gnorm ≤ c.gtol then return State.finish { s with gnorm } .gtolReached
  else
    let diag ← (match c.scaling with
      | .auto => raiseScale norms s.diag
      | .explicit => some s.diag)
    return .attempt { s with gnorm, diag }

def linearize (c : Config α) (s : State p) : Option (Stage p) := do
  let d ← differentiate p c.epsfcn s.residuals s.unfilled
  match d.failure with
  | some e => return (s.interrupted d).abort e
  | none =>
    let (s, norms) ← factorize s d
    testGradient c norms s

end

end LeastSquares.Checked
