import LeastSquares.Damping.Rotation

/-!
# The damped triangular system

Given `A P = Q R`, a diagonal `D` and the first entries of `Qᵀ b`, find the `x` with `A x = b`
and `D x = 0` in the sense of least squares. The rows of `D`, in pivoted order, are absorbed into
a copy of `R` kept below the diagonal, which leaves the triangle `S` with
`Sᵀ S = Rᵀ R + Pᵀ D² P`. Unknowns from the first zero on the diagonal of `S` on are zero.
-/
namespace LeastSquares

variable {α : Type} [Scalar α] {m n : Nat}

/-- A triangular system: the upper triangle of `r` with the diagonal is `R`. -/
structure Triangular (α : Type) (m n : Nat) where
  r : Columns α m n
  pivots : Vector (Fin n) n
  /-- The first entries of `Qᵀ b`. -/
  qtb : Vector α n

structure DampedSolution (α : Type) (m n : Nat) where
  /-- `R` on and above the diagonal, `S` transposed below it. -/
  r : Columns α m n
  x : Vector α n
  sdiag : Vector α n
  permuted : Vector α n

namespace Triangular

def withLowerCopy (tall : n ≤ m) (r : Columns α m n) : Columns α m n :=
  overwrite r fun j => overwriteHead (r.get j) fun i : Fin n =>
    if j ≤ i then r.lead tall j i else r.lead tall i j

def absorbDamping (tall : n ≤ m) (s : Triangular α m n) (diag : Vector α n) (j : Fin n)
    (state : Columns α m n × Vector α n) : Columns α m n × Vector α n :=
  let done := Absorption.run tall
    { triangle := state.1
      rhs := state.2
      row := Vector.ofFn fun k => if k = j then diag.get (s.pivots.get j) else 0
      extra := 0 }
  (done.triangle, done.rhs)

/-- Solve `S z = w`, where `S` lies transposed below the diagonal of `s`, from the last unknown
below `rank` up; the unknowns from `rank` on are zero. -/
def backSubstitute (tall : n ≤ m) (s : Columns α m n) (sdiag : Vector α n) (rank : Nat)
    (rhs : Vector α n) : Vector α n :=
  let start := overwriteWhere rhs (rank ≤ ·) fun _ => 0
  Fin.foldr n (fun j w =>
    if j < rank then
      let sum := sumWhere (fun i : Fin n => j < i ∧ i < rank) fun i => s.lead tall i j * w.get i
      overwriteAt w j ((w.get j - sum) / sdiag.get j)
    else w) start

/-- Solve the system damped by `diag`, overwriting the buffers `x`, `sdiag` and `permuted`. -/
def damped (tall : n ≤ m) (s : Triangular α m n) (diag x sdiag permuted : Vector α n) :
    DampedSolution α m n :=
  -- The diagonal of `R` gives way to that of `S` for the rotations and is put back afterwards.
  let saved := overwrite x fun j => s.r.lead tall j j
  let rhs := overwrite permuted s.qtb.get
  let absorbed := Fin.foldl n (fun state j => s.absorbDamping tall diag j state)
    (withLowerCopy tall s.r, rhs)
  let sdiag := overwrite sdiag fun j => absorbed.1.lead tall j j
  let r := absorbed.1.withDiagonal tall saved
  let rank := firstIndex fun j : Fin n => sdiag.get j == 0
  let z := backSubstitute tall r sdiag rank absorbed.2
  { r, x := scatter s.pivots z saved, sdiag, permuted := z }

end Triangular

end LeastSquares
