import LeastSquares.Norm

/-!
# Classes of magnitude

What one component adds to the partial sums of the guarded norm depends on its class alone, and on
whether it is larger than any of its class before it.
-/
namespace LeastSquares

variable {α : Type} [Numeric α]

/-- A component of a vector of `n` that is summed relative to the largest one: above the bound of
the small class, and not below that of the large class. -/
def Large (n : Nat) (v : α) : Prop :=
  smallBound < Numeric.abs v ∧ ¬ Numeric.abs v < largeBound / Numeric.ofNat n

instance (n : Nat) : DecidablePred (Large n : α → Prop) :=
  fun _ => inferInstanceAs (Decidable (_ ∧ ¬ _))

namespace SquareSums

/-- What the partial sums can become when a component of magnitude `size` is accounted for. -/
inductive Added (low high size : α) (s : SquareSums α) : SquareSums α → Prop
  | medium (above : low < size) (below : size < high) :
    Added low high size s { s with medium := s.medium + size * size }
  | largest (above : low < size) (beyond : ¬ size < high) (new : s.largeMax < size) :
    Added low high size s
      { s with
        large := 1 + s.large * (s.largeMax / size) * (s.largeMax / size)
        largeMax := size }
  | large (above : low < size) (beyond : ¬ size < high) (old : ¬ s.largeMax < size) :
    Added low high size s
      { s with large := s.large + size / s.largeMax * (size / s.largeMax) }
  | smallest (below : ¬ low < size) (new : s.smallMax < size) :
    Added low high size s
      { s with
        small := 1 + s.small * (s.smallMax / size) * (s.smallMax / size)
        smallMax := size }
  | small (below : ¬ low < size) (old : ¬ s.smallMax < size) (nonzero : size != 0) :
    Added low high size s
      { s with small := s.small + size / s.smallMax * (size / s.smallMax) }
  | nothing (below : ¬ low < size) (old : ¬ s.smallMax < size) (zero : ¬ (size != 0) = true) :
    Added low high size s s

theorem added (low high size : α) (s : SquareSums α) :
    Added low high size s (s.add low high size) := by
  unfold add
  split
  next inside => exact .medium inside.1 inside.2
  next outside =>
    split
    next above =>
      have beyond : ¬ size < high := fun below => outside ⟨above, below⟩
      split
      next new => exact .largest above beyond new
      next old => exact .large above beyond old
    next below =>
      split
      next new => exact .smallest below new
      next old =>
        split
        next nonzero => exact .small below old nonzero
        next zero => exact .nothing below old zero

end SquareSums

end LeastSquares
