import LeastSquares.Columns

/-!
# Data of unknown shape

Vectors, pivots and matrices whose sizes are known only at run time, fitted to the sizes a routine
needs. Whatever would lead to an index out of range is refused here, so that the routines
themselves never meet one.
-/
namespace LeastSquares

variable {α : Type} {m n : Nat}

/-- The first `n` entries, if there are so many. -/
def vector? (n : Nat) (xs : Array α) : Option (Vector α n) :=
  if enough : n ≤ xs.size then some (Vector.ofFn fun i => xs[i]) else none

/-- The first `n` entries as indices below `k`, if there are so many and none is out of range. -/
def indices? (k n : Nat) (ps : Array Nat) : Option (Vector (Fin k) n) := do
  let ps ← vector? n ps
  if inRange : ∀ i, ps.get i < k then some (Vector.ofFn fun i => ⟨ps.get i, inRange i⟩) else none

/-- A vector with the entries that `xs` has at the given places, if it has entries at all of them.
What the vector holds elsewhere does not matter to its reader. -/
def entriesAt? [Zero α] (places : Vector (Fin n) m) (xs : Array α) : Option (Vector α n) :=
  if ∀ j, places.get j < xs.size then some (Vector.ofFn fun i => xs.getD i 0) else none

structure Square (α : Type) where
  size : Nat
  columns : Columns α size size

end LeastSquares
