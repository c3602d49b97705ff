import LeastSquares.Damping.Solve

/-!
# Search for the damping

Find the damping `par` whose step has scaled length `delta` up to a tenth. If the undamped step is
already short enough it is taken with `par = 0`. Otherwise `par` is refined between bounds by
Newton corrections, each trial being one damped solve; the tenth trial is taken as it is.
-/
namespace LeastSquares

variable {α : Type} [Scalar α] {m n : Nat}

structure SearchBuffers (α : Type) (n : Nat) where
  x : Vector α n
  sdiag : Vector α n
  direction : Vector α n
  scaled : Vector α n

/-- The outcome of a search. The step belonging to `par` is `buffers.x`, and the triangle of its
damped system is in the lower half of `r` and `buffers.sdiag`; both are left alone when no damped
solve was needed. -/
structure Search (α : Type) (m n : Nat) where
  par : α
  trials : Nat
  r : Columns α m n
  buffers : SearchBuffers α n

namespace Triangular

/-- The position of the first zero on the diagonal of `R`, or `n`. -/
def rank (tall : n ≤ m) (s : Triangular α m n) : Nat :=
  firstIndex fun j => s.r.lead tall j j == 0

/-- Solve the leading block of full rank for `qtb`, column by column from the last unknown up.
Unknowns from the first zero of the diagonal on are zero. -/
def undamped (tall : n ≤ m) (s : Triangular α m n) (buffer : Vector α n) : Vector α n :=
  let rank := s.rank tall
  let start := overwrite buffer fun j => if j < rank then s.qtb.get j else 0
  Fin.foldr n (fun j w =>
    if j < rank then
      let t := w.get j / s.r.lead tall j j
      overwriteWhere (overwriteAt w j t) (· < j) fun i => w.get i - s.r.lead tall i j * t
    else w) start

/-- The direction `D² x / |D x|` in pivoted order, where `scaled` is `D x`. -/
def boundaryNormal (s : Triangular α m n) (diag scaled : Vector α n) (length : α)
    (buffer : Vector α n) : Vector α n :=
  overwrite buffer fun j =>
    let l := s.pivots.get j
    diag.get l * (scaled.get l / length)

def forwardSubstitute (tall : n ≤ m) (s : Triangular α m n) (w : Vector α n) : Vector α n :=
  Fin.foldl n (fun w j =>
    let sum := sumWhere (· < j) fun i => s.r.lead tall i j * w.get i
    overwriteAt w j ((w.get j - sum) / s.r.lead tall j j)) w

/-- The gradient `D⁻¹ Rᵀ qtb` in pivoted order. -/
def scaledGradient (tall : n ≤ m) (s : Triangular α m n) (diag : Vector α n)
    (buffer : Vector α n) : Vector α n :=
  overwrite buffer fun j =>
    sumWhere (· ≤ j) (fun i => s.r.lead tall i j * s.qtb.get i) / diag.get (s.pivots.get j)

/-- Solve `Sᵀ y = w` from the first unknown down, column by column, where `S` lies transposed
below the diagonal of `r`. -/
def solveDampedTranspose (tall : n ≤ m) (r : Columns α m n) (sdiag w : Vector α n) :
    Vector α n :=
  Fin.foldl n (fun w j =>
    let t := w.get j / sdiag.get j
    overwriteWhere (overwriteAt w j t) (j < ·) fun i => w.get i - r.lead tall i j * t) w

end Triangular

/-- The state of a search between two trials: the damping to try next, bounds around the damping
sought, and the scaled length `|D x|` of the last step with its error `|D x| - delta`. -/
structure Refinement (α : Type) (m n : Nat) where
  par : α
  lower : α
  upper : α
  length : α
  error : α
  trials : Nat
  r : Columns α m n
  buffers : SearchBuffers α n

namespace Refinement

/-- Solve for the damping at hand; a damping of zero is replaced by a small positive one. The
result also tells whether the step is good enough to stop. -/
def attempt (tall : n ≤ m) (s : Triangular α m n) (diag : Vector α n) (delta : α)
    (state : Refinement α m n) : Refinement α m n × Bool :=
  let par := if state.par == 0 then larger Numeric.tiny (0.001 * state.upper) else state.par
  let root := sqrt par
  let damping := overwrite state.buffers.direction fun j => root * diag.get j
  let solved := Triangular.damped tall { s with r := state.r } damping
    state.buffers.x state.buffers.sdiag state.buffers.scaled
  let scaled := overwrite solved.permuted fun j => diag.get j * solved.x.get j
  let length := norm scaled.toList
  let error := length - delta
  -- Without a lower bound, a step is good enough if the last one was too short and this one is not
  -- longer.
  let settled := abs error ≤ 0.1 * delta
    ∨ (state.lower == 0 ∧ error ≤ state.error ∧ state.error < 0)
  ({ state with
      par, length, error
      trials := state.trials + 1
      r := solved.r
      buffers := ⟨solved.x, solved.sdiag, damping, scaled⟩ }, settled)

/-- Correct the damping by a Newton step, kept above the lower bound. -/
def correct (tall : n ≤ m) (s : Triangular α m n) (diag : Vector α n) (delta : α)
    (state : Refinement α m n) : Refinement α m n :=
  let normal := s.boundaryNormal diag state.buffers.scaled state.length state.buffers.direction
  let direction := Triangular.solveDampedTranspose tall state.r state.buffers.sdiag normal
  let slope := norm direction.toList
  let change := state.error / delta / slope / slope
  -- The damping tried becomes the bound on the side of its error.
  let lower := if state.error > 0 then larger state.lower state.par else state.lower
  let upper := if state.error < 0 then smaller state.upper state.par else state.upper
  { state with
    par := larger lower (state.par + change)
    lower, upper
    buffers := { state.buffers with direction } }

def run (tall : n ≤ m) (s : Triangular α m n) (diag : Vector α n) (delta : α) :
    Nat → Refinement α m n → Refinement α m n
  | 0, state => (state.attempt tall s diag delta).1
  | more + 1, state =>
    match state.attempt tall s diag delta with
    | (tried, true) => tried
    | (tried, false) => run tall s diag delta more (tried.correct tall s diag delta)

end Refinement

def maxTrials : Nat := 10

namespace Triangular

/-- Bounds for the damping when the undamped step `undamped`, of scaled length `length`, is too
long, and the first damping to try. The lower bound comes from a Newton step at zero, which only
a triangle of full rank admits; the upper bound from the gradient. -/
def bracket (tall : n ≤ m) (s : Triangular α m n) (diag : Vector α n) (delta par length : α)
    (buffers : SearchBuffers α n) : Refinement α m n :=
  let error := length - delta
  let normal :=
    if s.rank tall < n then buffers.direction
    else s.forwardSubstitute tall
      (s.boundaryNormal diag buffers.scaled length buffers.direction)
  let slope := norm normal.toList
  let lower := if s.rank tall < n then 0 else error / delta / slope / slope
  let gradient := s.scaledGradient tall diag normal
  let steepness := norm gradient.toList
  let upper :=
    -- A gradient of zero gives no bound.
    let bound := steepness / delta
    if bound == 0 then Numeric.tiny / smaller delta 0.1 else bound
  -- The estimate counts as far as the bounds allow.
  let clamped := smaller (larger par lower) upper
  { par := if clamped == 0 then steepness / length else clamped
    lower, upper, length, error
    trials := 0
    r := s.r
    buffers := { buffers with direction := gradient } }

/-- Search the damping for the radius `delta`, starting from the estimate `par`. -/
def search (tall : n ≤ m) (s : Triangular α m n) (diag : Vector α n) (delta par : α)
    (buffers : SearchBuffers α n) : Search α m n :=
  let direction := s.undamped tall buffers.direction
  let x := scatter s.pivots direction buffers.x
  let scaled := overwrite buffers.scaled fun j => diag.get j * x.get j
  let length := norm scaled.toList
  let buffers := { buffers with x, direction, scaled }
  if length - delta ≤ 0.1 * delta then
    { par := 0, trials := 0, r := s.r, buffers }
  else
    let last := Refinement.run tall s diag delta (maxTrials - 1)
      (s.bracket tall diag delta par length buffers)
    { par := last.par, trials := last.trials, r := last.r, buffers := last.buffers }

end Triangular

end LeastSquares
