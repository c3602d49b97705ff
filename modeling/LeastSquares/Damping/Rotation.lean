import LeastSquares.Columns

/-!
# Absorbing a row by rotations

A triangle `S` is kept by columns in the lower half of a matrix: column `k`, from row `k` on, is
row `k` of `S`. A further row of coefficients is absorbed into it by one rotation for each entry
of the row that is not zero, from left to right; the right-hand sides turn along.
-/
namespace LeastSquares

variable {α : Type} [Scalar α] {m n : Nat}

structure Rotation (α : Type) where
  sin : α
  cos : α

/-- The rotation that turns the pair `(a, b)` into one with second entry zero, computed from the
quotient of the smaller by the larger entry. -/
def Rotation.annihilate (a b : α) : Rotation α :=
  if abs a < abs b then
    let cotan := a / b
    let sin := 0.5 / sqrt (0.25 + 0.25 * cotan * cotan)
    ⟨sin, sin * cotan⟩
  else
    let tan := b / a
    let cos := 0.5 / sqrt (0.25 + 0.25 * tan * tan)
    ⟨cos * tan, cos⟩

structure Absorption (α : Type) (m n : Nat) where
  triangle : Columns α m n
  rhs : Vector α n
  row : Vector α n
  extra : α

namespace Absorption

/-- Rotate entry `k` of the row into the triangle. -/
def rotate (tall : n ≤ m) (k : Fin n) (s : Absorption α m n) : Absorption α m n :=
  if s.row.get k == 0 then s
  else
    let below (i : Fin n) : α := s.triangle.lead tall i k
    let g := Rotation.annihilate (below k) (s.row.get k)
    { triangle := overwriteAt s.triangle k <|
        overwriteHead (s.triangle.get k) fun i : Fin n =>
          if k ≤ i then g.cos * below i + g.sin * s.row.get i else below i
      rhs := overwriteAt s.rhs k (g.cos * s.rhs.get k + g.sin * s.extra)
      -- Entry `k` itself is not cleared, because nothing reads it again.
      row := overwriteWhere s.row (k < ·) fun i => -g.sin * below i + g.cos * s.row.get i
      extra := -g.sin * s.rhs.get k + g.cos * s.extra }

def run (tall : n ≤ m) (s : Absorption α m n) : Absorption α m n :=
  Fin.foldl n (fun s k => s.rotate tall k) s

end Absorption

end LeastSquares
