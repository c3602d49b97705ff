import LeastSquares.Columns

/-!
# Workspaces

The buffers of a solve. They belong to one solve at a time and may serve any number of solves of
one shape, whatever earlier ones left in them.
-/
namespace LeastSquares

structure Buffers (α : Type) (m n : Nat) where
  /-- The Jacobian, then its packed factorization. -/
  jacobian : Columns α m n
  pivots : Vector (Fin n) n
  /-- The first entries of `Qᵀ` applied to the residuals. -/
  qtf : Vector α n
  /-- The diagonal of `R`, then the step. -/
  step : Vector α n
  /-- Column norms and the diagonal of the damped triangle, then the trial point. -/
  point : Vector α n
  /-- Reference norms and search directions, then the scaled step. -/
  scaled : Vector α n
  /-- The residuals at perturbed and trial points. Between those it holds `Qᵀ` applied to the
  residuals, whose first entries serve a search as well. -/
  trial : Vector α m

namespace Buffers

variable {α : Type} {m n : Nat}

def zeros [Zero α] (m n : Nat) : Buffers α m n where
  jacobian := .zeros m n
  pivots := Vector.ofFn id
  qtf := Vector.replicate n 0
  step := Vector.replicate n 0
  point := Vector.replicate n 0
  scaled := Vector.replicate n 0
  trial := Vector.replicate m 0

/-- The triangle `R` of the last factorization, in pivoted column order. -/
def factor [Zero α] (b : Buffers α m n) : Columns α (min n m) (min n m) :=
  b.jacobian.upperTriangle (Nat.min_le_right n m) (Nat.min_le_left n m)

end Buffers

structure Workspace (α : Type) where
  residualCount : Nat
  parameterCount : Nat
  buffers : Buffers α residualCount parameterCount

namespace Workspace

variable {α : Type}

def new [Zero α] (m n : Nat) : Workspace α := ⟨m, n, .zeros m n⟩

/-- Whether the buffers have the shape of an `m × n` problem. -/
def fits (w : Workspace α) (m n : Nat) : Bool :=
  w.residualCount == m && w.parameterCount == n

/-- The buffers at a shape known to be theirs. -/
def cast (w : Workspace α) {m n : Nat} (rows : w.residualCount = m)
    (cols : w.parameterCount = n) : Buffers α m n :=
  rows ▸ cols ▸ w.buffers

end Workspace

end LeastSquares
