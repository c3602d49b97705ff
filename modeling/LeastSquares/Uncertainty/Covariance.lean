import LeastSquares.Columns

/-!
# Covariance of fitted parameters

From `J P = Q R` the covariance is a multiple of `(JᵀJ)⁻¹ = P (RᵀR)⁻¹ Pᵀ`. The inverse is formed
in the upper triangle that holds `R`, carried to the unpivoted order of the parameters in the
lower triangle, and finally made symmetric. Parameters that depend on earlier ones get zeros.
-/
namespace LeastSquares

variable {α : Type} [Scalar α] {m n : Nat}

namespace Columns

/-- The number of leading diagonal entries larger than `tol` times the first. -/
def leadingRank (tall : n ≤ m) (r : Columns α m n) (tol : α) : Nat :=
  if nonempty : 0 < n then
    let bound := tol * abs (r.lead tall ⟨0, nonempty⟩ ⟨0, nonempty⟩)
    firstIndex fun k : Fin n => abs (r.lead tall k k) ≤ bound
  else 0

/-- Column `k` of the inverse of the triangle, given the inverses of the columns before it. -/
def inverseColumn (tall : n ≤ m) (r : Columns α m n) (k : Fin n) : Vector α m :=
  let pivot := 1 / r.lead tall k k
  Fin.foldl n (fun col j =>
    if j < k then
      let t := pivot * col.get (j.castLE tall)
      let cleared := overwriteAt col (j.castLE tall) 0
      overwriteWhere cleared (· ≤ j.castLE tall) fun i => cleared.get i - t * r.entry i j
    else col) (overwriteAt (r.get k) (k.castLE tall) pivot)

def invertTriangle (tall : n ≤ m) (rank : Nat) (r : Columns α m n) : Columns α m n :=
  Fin.foldl n (fun r k =>
    if k < rank then overwriteAt r k (r.inverseColumn tall k) else r) r

/-- Add the contribution of column `k` to the product of the triangle with its transpose. -/
def multiplyColumn (tall : n ≤ m) (k : Fin n) (r : Columns α m n) : Columns α m n :=
  overwrite r fun j =>
    let factor := r.lead tall j k
    if j < k then
      overwriteWhere (r.get j) (· ≤ j.castLE tall) fun i => r.entry i j + factor * r.entry i k
    else if j = k then
      overwriteWhere (r.get j) (· ≤ j.castLE tall) fun i => r.entry i j * factor
    else r.get j

def multiplyTranspose (tall : n ≤ m) (rank : Nat) (r : Columns α m n) : Columns α m n :=
  Fin.foldl n (fun r k => if k < rank then r.multiplyColumn tall k else r) r

def clearFrom (tall : n ≤ m) (rank : Nat) (r : Columns α m n) : Columns α m n :=
  overwrite r fun j =>
    if rank ≤ j then overwriteWhere (r.get j) (· ≤ j.castLE tall) fun _ => 0 else r.get j

/-- Carry entry `(i, j)` of the upper triangle to the place its parameters have in the lower one.
The diagonal is not carried. -/
def carryEntry (tall : n ≤ m) (pivots : Vector (Fin n) n) (i j : Fin n) (r : Columns α m n) :
    Columns α m n :=
  -- The place is below the diagonal, whichever way round the two parameters come.
  let place (row col : Fin n) : Columns α m n :=
    overwriteAt r col (overwriteAt (r.get col) (row.castLE tall) (r.lead tall i j))
  let k := pivots.get i
  let l := pivots.get j
  if k > l then place k l else if k < l then place l k else r

/-- Carry the upper triangle to the unpivoted order of the parameters, in the lower triangle. -/
def carry (tall : n ≤ m) (pivots : Vector (Fin n) n) (r : Columns α m n) : Columns α m n :=
  Fin.foldl n (fun r j =>
    Fin.foldl n (fun r i => if i ≤ j then r.carryEntry tall pivots i j else r) r) r

/-- Give the upper triangle the entries of the lower one, and the diagonal the entries `d`. -/
def symmetrize (tall : n ≤ m) (r : Columns α m n) (d : Vector α n) : Columns α m n :=
  overwrite r fun j => overwriteHead (r.get j) fun i : Fin n =>
    if i < j then r.lead tall j i else if i = j then d.get j else r.lead tall i j

/-- Overwrite the triangle `R` with `(JᵀJ)⁻¹` in the unpivoted order of the parameters. The result
also gives the rank. -/
def gramInverse (tall : n ≤ m) (r : Columns α m n) (pivots : Vector (Fin n) n) (tol : α) :
    Columns α m n × Nat :=
  let rank := r.leadingRank tall tol
  let product := ((r.invertTriangle tall rank).multiplyTranspose tall rank).clearFrom tall rank
  -- The diagonal is carried apart, since the lower triangle has no room of its own for it.
  let diagonal := scatter pivots (Vector.ofFn fun j => product.lead tall j j)
    (Vector.replicate n 0)
  ((product.carry tall pivots).symmetrize tall diagonal, rank)

end Columns

/-- Relative size below which a diagonal entry of `R` marks a dependent parameter. -/
def rankTolerance : α := 1e-14

/-- The covariance of the parameters from the triangle `r`, scaled by the variance `variance` of
the residuals. -/
def covariance (tall : n ≤ m) (r : Columns α m n) (pivots : Vector (Fin n) n) (variance : α) :
    Columns α n n :=
  let block : Columns α n n := .ofEntries (r.lead tall)
  (block.gramInverse (Nat.le_refl n) pivots rankTolerance).1.map fun col =>
    col.map (· * variance)

end LeastSquares
