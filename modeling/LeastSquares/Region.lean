import LeastSquares.Columns

/-!
# Trust region

A step is judged by the reduction of the sum of squares it achieves against the reduction the
linear model predicts. Poor agreement shrinks the region of trust, good agreement expands it.
-/
namespace LeastSquares

variable {α : Type} [Scalar α] {m n : Nat}

structure Reduction (α : Type) where
  /-- The reduction achieved; `-1` if the residuals grew tenfold or more. -/
  actual : α
  predicted : α
  slope : α
  ratio : α

namespace Reduction

/-- `R Pᵀ step`, each row summed from the diagonal on. -/
def image {k : Nat} (tall : n ≤ m) (r : Columns α m n) (pivots : Vector (Fin k) n)
    (step : Vector α k) (buffer : Vector α n) : Vector α n :=
  overwrite buffer fun i =>
    sumWhere (i ≤ ·) fun j => r.lead tall i j * step.get (pivots.get j)

/-- Compare the residual norm `trial` after a step with the norm `current` before it. `image` is
`R Pᵀ step` and `length` the scaled length of the step. -/
def measure (current trial length par : α) (image : Vector α n) : Reduction α :=
  let actual :=
    -- Residuals that grew tenfold or are not a number count as a failure.
    if 0.1 * trial < current then
      let quotient := trial / current
      1 - quotient * quotient
    else -1
  let linear := norm image.toList / current
  let damping := sqrt par * length / current
  let predicted := linear * linear + damping * damping / 0.5
  { actual, predicted
    slope := -(linear * linear + damping * damping)
    ratio := if predicted != 0 then actual / predicted else 0 }

/-- The least ratio of the achieved to the predicted reduction at which a step is taken. -/
def acceptRatio : α := 1e-4

def acceptable (r : Reduction α) : Bool :=
  acceptRatio ≤ r.ratio

end Reduction

/-- The radius within which the linear model is trusted, and the damping that keeps steps in it. -/
structure Region (α : Type) where
  delta : α
  par : α

namespace Region

/-- The radius `factor * xnorm`, or `factor` if that is zero. -/
def start (factor xnorm : α) : Region α :=
  let delta := factor * xnorm
  { delta := if delta == 0 then factor else delta, par := 0 }

def cap (g : Region α) (length : α) : Region α :=
  { g with delta := smaller g.delta length }

/-- The factor by which a poor step shrinks the region: a half if the residuals did not grow,
otherwise the minimum of the parabola through both norms, and a tenth at least. -/
def shrinkage (r : Reduction α) (current trial : α) : α :=
  let factor := if 0 ≤ r.actual then 0.5 else 0.5 * r.slope / (r.slope + 0.5 * r.actual)
  if current ≤ 0.1 * trial ∨ factor < 0.1 then 0.1 else factor

/-- Shrink or expand the region after a step of scaled length `length` that changed the residual
norm from `current` to `trial`. -/
def update (g : Region α) (r : Reduction α) (current trial length : α) : Region α :=
  if r.ratio ≤ 0.25 then
    -- The damping grows as the radius shrinks.
    let factor := shrinkage r current trial
    { delta := factor * smaller g.delta (length / 0.1), par := g.par / factor }
  else if g.par == 0 ∨ 0.75 ≤ r.ratio then
    { delta := length / 0.5, par := g.par * 0.5 }
  else g

end Region

end LeastSquares
