import LeastSquares.Numeric

/-!
# Guarded Euclidean norm

Squares of very large components overflow and squares of very small ones vanish. Components are
therefore sorted into three classes by magnitude: large and small ones are summed as squares
relative to the running maximum of their class, the ones between are summed directly. A large
class outweighs the small one entirely.
-/
namespace LeastSquares

variable {α : Type} [Numeric α]

/-- Components of at most this magnitude are small: their squares may underflow. -/
def smallBound : α := 1.4916681462400413e-154

/-- Components of at least this magnitude, divided by their number, are large. -/
def largeBound : α := 1.3407807929942596e154

/-- Partial sums of squares of the three classes. The sums of the large and the small class are
relative to the squares of `largeMax` and `smallMax`. -/
structure SquareSums (α : Type) where
  large : α
  medium : α
  small : α
  largeMax : α
  smallMax : α

namespace SquareSums

def zero : SquareSums α := ⟨0, 0, 0, 0, 0⟩

/-- Account for a component of magnitude `size`, where `low` and `high` bound the middle class. -/
def add (low high : α) (s : SquareSums α) (size : α) : SquareSums α :=
  if size > low ∧ size < high then
    { s with medium := s.medium + size * size }
  else if size > low then
    -- A new maximum rescales what has been summed.
    if size > s.largeMax then
      let r := s.largeMax / size
      { s with large := 1 + s.large * r * r, largeMax := size }
    else
      let r := size / s.largeMax
      { s with large := s.large + r * r }
  else if size > s.smallMax then
    let r := s.smallMax / size
    { s with small := 1 + s.small * r * r, smallMax := size }
  else if size != 0 then
    let r := size / s.smallMax
    { s with small := s.small + r * r }
  else s

def root (s : SquareSums α) : α :=
  if s.large != 0 then
    s.largeMax * Numeric.sqrt (s.large + s.medium / s.largeMax / s.largeMax)
  else if s.medium != 0 then
    -- The larger of the two summands is taken out of the root.
    if s.smallMax ≤ s.medium then
      Numeric.sqrt (s.medium * (1 + s.smallMax / s.medium * (s.smallMax * s.small)))
    else
      Numeric.sqrt (s.smallMax * (s.medium / s.smallMax + s.smallMax * s.small))
  else
    s.smallMax * Numeric.sqrt s.small

end SquareSums

def squareSums (x : List α) : SquareSums α :=
  let low : α := smallBound
  let high : α := largeBound / Numeric.ofNat x.length
  x.foldl (fun s v => s.add low high (Numeric.abs v)) .zero

/-- The Euclidean norm of `x`, safe against overflow and underflow of the squares. -/
def guardedNorm (x : List α) : α :=
  if x.isEmpty then 0 else (squareSums x).root

/-- Numbers together with the norm by which the solver measures vectors of them. In double
precision that is the guarded norm; over an exact field it can be the Euclidean norm itself. -/
class Scalar (α : Type) extends Numeric α where
  norm : List α → α

export Numeric (sqrt abs larger smaller)
export Scalar (norm)

instance : Scalar Float where
  norm := guardedNorm

end LeastSquares
