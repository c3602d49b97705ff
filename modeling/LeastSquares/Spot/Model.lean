import LeastSquares.Numeric

/-!
# Gaussian spots

A round spot on a constant background. Amplitude, width and background must not be negative, so
a fit works on their square roots: every vector it visits stands for an admissible spot.
-/
namespace LeastSquares

variable {α : Type} [Numeric α]

structure Spot (α : Type) where
  amplitude : α
  x0 : α
  y0 : α
  sigma : α
  background : α

namespace Spot

abbrev parameterCount : Nat := 5

def value (s : Spot α) (x y : α) : α :=
  let dx := x - s.x0
  let dy := y - s.y0
  s.amplitude * Numeric.exp (-(dx * dx + dy * dy) / (Numeric.ofNat 2 * s.sigma * s.sigma))
    + s.background

/-- The vector a fit works on; negative quantities count as zero. -/
def toInternal (s : Spot α) : Vector α parameterCount :=
  let root (x : α) : α := Numeric.sqrt (Numeric.larger x 0)
  #v[root s.amplitude, s.x0, s.y0, root s.sigma, root s.background]

/-- The spot a vector stands for. Entries that are missing count as zero, others are ignored. -/
def ofInternal {n : Nat} (v : Vector α n) : Spot α :=
  let entry (i : Nat) : α := v.toArray.getD i 0
  { amplitude := entry 0 * entry 0
    x0 := entry 1
    y0 := entry 2
    sigma := entry 3 * entry 3
    background := entry 4 * entry 4 }

/-- The brightness of pixel `k` of an image of the given width. -/
def pixel (s : Spot α) (width k : Nat) : α :=
  s.value (Numeric.ofNat (k % width)) (Numeric.ofNat (k / width))

/-- The pixels of an image of the spot, row by row. -/
def render (s : Spot α) (width height : Nat) : Array α :=
  Array.ofFn fun k : Fin (width * height) => s.pixel width k

end Spot

end LeastSquares
