import LeastSquares.Spot.Model
import LeastSquares.Random.Source
import LeastSquares.Error

/-!
# Synthetic images

Random spots away from the border of an image, with normally distributed noise on every pixel.
One generator runs through the whole batch: for each image it draws the spot, then the noise of
the pixels row by row. The noise is drawn even where its level is zero.
-/
namespace LeastSquares

structure SyntheticImage where
  truth : Spot Float
  pixels : Array Float

namespace SyntheticImage

variable {ω γ : Type}

/-- A random spot for an image of the given size. -/
def drawSpot (source : Source ω γ) (width height : Nat) (g : γ) : Spot Float × γ :=
  let w := Float.ofNat width
  let h := Float.ofNat height
  let (amplitude, g) := source.uniform 50.0 150.0 g
  let (x0, g) := source.uniform (0.35 * w) (0.65 * w) g
  let (y0, g) := source.uniform (0.35 * h) (0.65 * h) g
  let (sigma, g) := source.uniform 1.2 (Numeric.larger (Numeric.smaller w h / 6.0) 1.5) g
  let (background, g) := source.uniform 5.0 15.0 g
  (⟨amplitude, x0, y0, sigma, background⟩, g)

/-- Add a number drawn by `sample` to every pixel. -/
def addNoise (sample : γ → Float × γ) (pixels : Array Float) (g : γ) : Array Float × γ :=
  pixels.foldl (fun (done, g) value =>
    let (z, g) := sample g
    (done.push (value + z), g)) (#[], g)

def draw (source : Source ω γ) (width height : Nat) (sample : γ → Float × γ) (g : γ) :
    SyntheticImage × γ :=
  let (truth, g) := drawSpot source width height g
  let (pixels, g) := addNoise sample (truth.render width height) g
  (⟨truth, pixels⟩, g)

def drawMany (source : Source ω γ) (width height : Nat) (sample : γ → Float × γ) (count : Nat)
    (g : γ) : Array SyntheticImage × γ :=
  Nat.fold count (fun _ _ (done, g) =>
    let (image, g) := draw source width height sample g
    (done.push image, g)) (#[], g)

/-- Images of random spots with noise of the given level, drawn from `source` at some `moment`. -/
def batch (source : Source ω γ) (moment : ω) (count width height : Nat) (noise : Float)
    (seed : UInt64) : Except (Error Float) (Array SyntheticImage) :=
  if width < 5 ∨ height < 5 then .error (.syntheticTooSmall width height)
  else if ¬ (0 ≤ noise) ∨ noise.isInf then .error (.noiseLevel noise)
  else
    match source.normal 0 noise with
    | .error reason => .error (.noiseDistribution reason)
    | .ok sample => .ok (drawMany source width height sample count (source.ofSeed moment seed)).1

end SyntheticImage

end LeastSquares
