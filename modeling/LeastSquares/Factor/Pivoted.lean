import LeastSquares.Columns

/-!
# Factorization with column pivoting

`A P = Q R` by reflections. The packed matrix holds the strict upper triangle of `R` above the
diagonal and the reflectors on and below it; the diagonal of `R` is kept aside. With pivoting,
each step takes the remaining column of largest norm. Those norms are not recomputed but reduced
by the entry each reflection splits off, until cancellation has eaten too much of them.
-/
namespace LeastSquares

variable {α : Type} [Scalar α] {m n : Nat}

/-! A reflector is stored as the vector `v` it is built from, together with a position `j`: entries
before `j` play no part, and the reflection is `I - v vᵀ / vⱼ` on the others. -/

/-- The reflector that sends `col`, from position `j` on, to a multiple of its first entry:
those entries divided by `length`, and one added to the first. -/
def reflector (j : Fin m) (length : α) (col : Vector α m) : Vector α m :=
  let v := overwriteWhere col (j ≤ ·) fun i => col.get i / length
  overwriteAt v j (v.get j + 1)

def reflect (j : Fin m) (v w : Vector α m) : Vector α m :=
  let t := sumWhere (j ≤ ·) (fun i => v.get i * w.get i) / v.get j
  overwriteWhere w (j ≤ ·) fun i => w.get i - t * v.get i

structure Factor (α : Type) (m n : Nat) where
  packed : Columns α m n
  /-- The index that the column now at each position had at first. -/
  pivots : Vector (Fin n) n
  /-- The diagonal of `R` at finished positions, the norms of what remains of the columns at the
  others. -/
  rdiag : Vector α n
  norms : Vector α n
  /-- The remaining norms when they were last computed in full. -/
  reference : Vector α n

namespace Factor

/-- Take the norms of all columns. Pivoting starts from the identity; without it `pivots` is left
as it is. -/
def prepare (pivot : Bool) (f : Factor α m n) : Factor α m n :=
  let size (j : Fin n) : α := norm (f.packed.get j).toList
  { packed := f.packed
    pivots := if pivot then overwrite f.pivots id else f.pivots
    rdiag := overwrite f.rdiag size
    norms := overwrite f.norms size
    reference := overwrite f.reference size }

/-- The first position from `j` on with the largest remaining norm. -/
def pivotFrom (j : Fin n) (remaining : Vector α n) : Fin n :=
  Fin.foldl n (fun best k =>
    -- Of equal norms the first one is taken.
    if j ≤ k ∧ remaining.get k > remaining.get best then k else best) j

/-- Bring column `k` to position `j`. The norms of position `j` are about to be finished, so only
those of position `k` are kept up. -/
def exchange (j k : Fin n) (f : Factor α m n) : Factor α m n :=
  { f with
    packed := interchange f.packed j k
    pivots := interchange f.pivots j k
    rdiag := overwriteAt f.rdiag k (f.rdiag.get j)
    reference := overwriteAt f.reference k (f.reference.get j) }

/-- The remaining and the reference norm of a column after a reflection at row `j` has split off
its entry there. -/
def downdate (j : Fin m) (col : Vector α m) (remaining reference : α) : α × α :=
  if remaining == 0 then (remaining, reference)
  else
    let t := col.get j / remaining
    let reduced := remaining * sqrt (larger (1 - t * t) 0)
    let ratio := reduced / reference
    -- Too little is left of the norm for its leading digits to be right.
    if 0.05 * ratio * ratio ≤ Numeric.epsilon then
      let fresh := tailNorm col (j + 1)
      (fresh, fresh)
    else (reduced, reference)

/-- Reflect the column at position `col` onto its entry in row `row`, which has the same index,
and the columns after it along with it. -/
def eliminate (pivot : Bool) (row : Fin m) (col : Fin n) (f : Factor α m n) : Factor α m n :=
  let current := f.packed.get col
  let size := tailNorm current row
  if size == 0 then { f with rdiag := overwriteAt f.rdiag col (-size) }
  else
    -- With the sign of the entry, so that nothing cancels when one is added to the quotient.
    let length := if current.get row < 0 then -size else size
    let v := reflector row length current
    let packed := overwrite f.packed fun k =>
      if k = col then v else if col < k then reflect row v (f.packed.get k) else f.packed.get k
    let updated := overwrite f.rdiag fun k =>
      if pivot ∧ col < k then downdate row (packed.get k) (f.rdiag.get k) (f.reference.get k)
      else (f.rdiag.get k, f.reference.get k)
    { f with
      packed
      rdiag := overwriteAt (updated.map (·.1)) col (-length)
      reference := updated.map (·.2) }

def step (pivot : Bool) (row : Fin m) (col : Fin n) (f : Factor α m n) : Factor α m n :=
  let f := if pivot then f.exchange col (pivotFrom col f.rdiag) else f
  f.eliminate pivot row col

/-- Factor the packed matrix, overwriting the buffers that come with it. -/
def compute (pivot : Bool) (f : Factor α m n) : Factor α m n :=
  Fin.foldl (min m n) (fun f j =>
    f.step pivot (j.castLE (Nat.min_le_left m n)) (j.castLE (Nat.min_le_right m n)))
    (f.prepare pivot)

end Factor

/-- `Qᵀ w` for the reflectors of a packed matrix; one whose leading entry is zero stands for the
identity. -/
def project (packed : Columns α m n) (w : Vector α m) : Vector α m :=
  Fin.foldl (min m n) (fun w j =>
    let row := j.castLE (Nat.min_le_left m n)
    let v := packed.get (j.castLE (Nat.min_le_right m n))
    -- A column of zeros was not reflected.
    if v.get row == 0 then w else reflect row v w) w

end LeastSquares
