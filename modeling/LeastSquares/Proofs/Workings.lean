import LeastSquares.Proofs.Magnitudes

/-!
# Workings of the guarded norm

Every number that the guarded norm computes on the way to its result, listed along the routine and
through the same branches. The quotients of two magnitudes of one class and the squares that are
summed directly are kept apart from the other numbers.
-/
namespace LeastSquares

/-- What a part of a routine computes. -/
structure Workings (α : Type) where
  quotients : List α := []
  squares : List α := []
  others : List α := []

def Workings.all {α : Type} (w : Workings α) : List α :=
  w.quotients ++ w.squares ++ w.others

variable {α : Type} [Numeric α]

namespace SquareSums

/-! ### Accounting for a component -/

/-- On the way from a relative sum to the one with a component larger by the inverse of `ratio`. -/
def rescaling (sum ratio : α) : Workings α where
  quotients := [ratio]
  others := [sum * ratio, sum * ratio * ratio, 1 + sum * ratio * ratio]

/-- On the way from a relative sum to the one with a component smaller by `ratio`. -/
def extending (sum ratio : α) : Workings α where
  quotients := [ratio]
  others := [ratio * ratio, sum + ratio * ratio]

def workings (low high : α) (s : SquareSums α) (size : α) : Workings α :=
  if size > low ∧ size < high then { squares := [size * size], others := [s.medium + size * size] }
  else if size > low then
    if size > s.largeMax then rescaling s.large (s.largeMax / size)
    else extending s.large (size / s.largeMax)
  else if size > s.smallMax then rescaling s.small (s.smallMax / size)
  else if size != 0 then extending s.small (size / s.smallMax)
  else {}

/-! ### Taking the root -/

/-- On the way from the partial sums to the norm, which itself is left out. -/
def rootWorkings (s : SquareSums α) : Workings α :=
  if s.large != 0 then
    let scaled := s.medium / s.largeMax
    let relative := scaled / s.largeMax
    { others := [scaled, relative, s.large + relative, Numeric.sqrt (s.large + relative)] }
  else if s.medium != 0 then
    let tail := s.smallMax * s.small
    if s.smallMax ≤ s.medium then
      let ratio := s.smallMax / s.medium
      { quotients := [ratio]
        others := [tail, ratio * tail, 1 + ratio * tail, s.medium * (1 + ratio * tail)] }
    else
      let ratio := s.medium / s.smallMax
      { quotients := [ratio], others := [tail, ratio + tail, s.smallMax * (ratio + tail)] }
  else { others := [Numeric.sqrt s.small] }

end SquareSums

/-! ### The norm -/

/-- A component of a vector of `n` that is summed directly. -/
def Medium (n : Nat) (v : α) : Prop :=
  smallBound < Numeric.abs v ∧ Numeric.abs v < largeBound / Numeric.ofNat n

instance (n : Nat) : DecidablePred (Medium n : α → Prop) :=
  fun _ => inferInstanceAs (Decidable (_ ∧ _))

/-- A component that is summed relative to the largest of its class, and zero. -/
def Small (v : α) : Prop := ¬ smallBound < Numeric.abs v

instance : DecidablePred (Small : α → Prop) :=
  fun _ => inferInstanceAs (Decidable (¬ _))

/-- The partial sums of a vector of `n` components when those in `seen` have been accounted for. -/
def partialSums (n : Nat) (seen : List α) : SquareSums α :=
  seen.foldl (fun s v => s.add smallBound (largeBound / Numeric.ofNat n) (Numeric.abs v)) .zero

theorem partialSums_snoc (n : Nat) (seen : List α) (v : α) : partialSums n (seen ++ [v]) =
    (partialSums n seen).add smallBound (largeBound / Numeric.ofNat n) (Numeric.abs v) :=
  List.foldl_append

/-- On the way from the partial sums `s` to those with the components in a list. -/
def sumResults (low high : α) : SquareSums α → List α → List α
  | _, [] => []
  | s, v :: rest =>
    Numeric.abs v :: (s.workings low high (Numeric.abs v)).all ++
      sumResults low high (s.add low high (Numeric.abs v)) rest

/-- All that is computed on the way to the norm of a vector. -/
def normResults (x : List α) : List α :=
  if x.isEmpty then []
  else
    let n : α := Numeric.ofNat x.length
    n :: largeBound / n :: sumResults smallBound (largeBound / n) .zero x ++
      (squareSums x).rootWorkings.all

end LeastSquares
