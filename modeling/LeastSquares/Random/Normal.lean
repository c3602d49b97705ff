import LeastSquares.Random.Stream
import LeastSquares.Random.NormalLayers
import LeastSquares.Random.Source

/-!
# Normally distributed numbers

A layer of the density is drawn at random and a point within it. Points that are certain to lie
under the density are taken at once; the others are compared with it, and those of the bottom
layer are replaced by draws from the tail.
-/
namespace LeastSquares

namespace Generator

open NormalLayers

/-- A draw from the tail beyond its start, with a bound on the repetitions. -/
def tailWithin (x y : Float) : Nat → Generator → Float × Generator
  | 0, g => (x, g)
  | more + 1, g =>
    if -2.0 * y < x * x then
      let (a, g) := g.openUnit
      let (c, g) := g.openUnit
      tailWithin (Float.log a / tailStart) (Float.log c) more g
    else (x, g)

/-- A normally distributed number, with a bound on the repetitions. -/
def normalWithin : Nat → Generator → Float × Generator
  | 0, g => (0, g)
  | more + 1, g =>
    let (draw, g) := g.next
    let i := (draw &&& 255).toNat
    let u := withExponent 1 draw - 3.0
    let x := u * edge i
    -- Left of the next edge the whole layer lies under the density.
    if x.abs < edge (i + 1) then (x, g)
    -- What is left of the bottom layer stands for the tail.
    else if i = 0 then
      let (t, g) := tailWithin 1.0 0.0 patience g
      (if u < 0 then t - tailStart else tailStart - t, g)
    else
      let (draw, g) := g.next
      let fraction := (draw >>> 11).toFloat * 1.1102230246251565e-16
      if height (i + 1) + (height i - height (i + 1)) * fraction < Float.exp (-x * x / 2.0) then
        (x, g)
      else normalWithin more g

def normal (g : Generator) : Float × Generator :=
  normalWithin patience g

/-- Random numbers from the stream. A normally distributed number is scaled after it is drawn. -/
def source : Source Unit Generator where
  ofSeed _ := ofSeed
  uniform := uniform
  normal mean deviation :=
    if deviation.isFinite then
      .ok fun g =>
        let (z, g) := g.normal
        (mean + deviation * z, g)
    else .error "variance is non-finite in normal distribution"

end Generator

end LeastSquares
