import LeastSquares.Spot.Model
import LeastSquares.Problem
import LeastSquares.Buffer

/-!
# Fitting spots to images

The residuals of an image are the differences between its pixels and those of a spot. The image
itself suggests where to start: the border gives the background, the peak the amplitude, and the
pixels above half maximum the centre and the width.
-/
namespace LeastSquares

variable {α : Type} [Scalar α]

/-- An image with enough pixels to fit a spot to. -/
structure Image (α : Type) where
  pixels : Array α
  width : Nat
  height : Nat
  area : pixels.size = width * height
  enough : Spot.parameterCount ≤ pixels.size

namespace Image

/-- Accept an image of the given size, which is that of an image of fewer than `2 ^ 64` pixels. -/
def of (pixels : Array α) (width height : Nat) : Except (Error α) (Image α) :=
  if area : pixels.size = width * height then
    if enough : Spot.parameterCount ≤ pixels.size then .ok ⟨pixels, width, height, area, enough⟩
    else .error (.imageTooSmall width height)
  else .error (.pixelCount pixels.size width height)

omit [Scalar α] in
/-- Up to that bound it makes no difference that the pixels are counted in 64 bits. -/
theorem exists_of_iff {pixels : Array α} {width height : Nat}
    (bound : width * height < UInt64.size) : (∃ image, of pixels width height = .ok image) ↔
      pixels.size = width * height % UInt64.size ∧ Spot.parameterCount ≤ pixels.size := by
  rw [Nat.mod_eq_of_lt bound]
  unfold of
  by_cases area : pixels.size = width * height
  · by_cases enough : Spot.parameterCount ≤ pixels.size
    · rw [dif_pos area, dif_pos enough]
      exact iff_of_true ⟨_, rfl⟩ ⟨area, enough⟩
    · rw [dif_pos area, dif_neg enough]
      exact iff_of_false (fun ⟨_, accepted⟩ => nomatch accepted) fun counted => enough counted.2
  · rw [dif_neg area]
    exact iff_of_false (fun ⟨_, accepted⟩ => nomatch accepted) fun counted => area counted.1

/-- The residuals of a spot. A width that is not positive cannot be evaluated. -/
def problem (image : Image α) : Problem α where
  residualCount := image.pixels.size
  parameterCount := Spot.parameterCount
  eval _ v buffer :=
    let spot := Spot.ofInternal v
    -- A failing evaluation leaves the buffer alone.
    if spot.sigma > 0 then
      let residual (k : Fin image.pixels.size) : α := image.pixels[k] - spot.pixel image.width k
      ⟨overwriteHead buffer residual, none⟩
    else ⟨buffer, some (.sigmaCollapsed spot.sigma)⟩

def onBorder (image : Image α) (k : Nat) : Bool :=
  let row := k / image.width
  let col := k % image.width
  row = 0 || col = 0 || row + 1 = image.height || col + 1 = image.width

/-- The mean of the border pixels, but no less than the precision at hand. -/
def background (image : Image α) : α :=
  let n := image.pixels.size
  let sum := sumWhere (fun k : Fin n => image.onBorder k) fun k => image.pixels[k]
  let count := (List.range n).countP image.onBorder
  larger (sum / Numeric.ofNat (max count 1)) Numeric.epsilon

def peak (image : Image α) : α :=
  image.pixels.foldl larger (image.pixels.getD 0 0)

/-- Sums over the bright pixels: of what each has above the background, of that weighted with its
column and with its row, and of one. -/
structure Moments (α : Type) where
  total : α
  columns : α
  rows : α
  count : Nat

def moments (image : Image α) (background threshold : α) : Moments α :=
  Nat.fold image.pixels.size (fun k _ s =>
    let value := image.pixels[k]
    if threshold ≤ value then
      -- A bright pixel weighs by what it has above the background.
      let excess := value - background
      { total := s.total + excess
        columns := s.columns + excess * Numeric.ofNat (k % image.width)
        rows := s.rows + excess * Numeric.ofNat (k / image.width)
        count := s.count + 1 }
    else s) ⟨0, 0, 0, 0⟩

/-- The number of pixels above half maximum of a spot of unit width: the area of a disc of radius
`√(2 ln 2)`. -/
def halfMaximumArea : α :=
  Numeric.ofNat 2 * 3.141592653589793 * 0.6931471805599453

def middle (length : Nat) : α :=
  (Numeric.ofNat length - 1) / Numeric.ofNat 2

def estimate (image : Image α) : Spot α :=
  let background := image.background
  let amplitude := larger (image.peak - background) Numeric.epsilon
  let bright := image.moments background (background + 0.5 * amplitude)
  { amplitude
    x0 := if bright.total > 0 then bright.columns / bright.total else middle image.width
    y0 := if bright.total > 0 then bright.rows / bright.total else middle image.height
    sigma := larger (sqrt (Numeric.ofNat bright.count / halfMaximumArea)) 0.5
    background }

end Image

end LeastSquares
