import LeastSquares.Buffer

/-!
# Matrices by columns

A dense matrix is a vector of columns. Routines that work on an upper triangle take any matrix
with at least as many rows as columns and read its leading square block.
-/
namespace LeastSquares

abbrev Columns (α : Type) (m n : Nat) := Vector (Vector α m) n

namespace Columns

variable {α : Type} {m n k : Nat}

def zeros [Zero α] (m n : Nat) : Columns α m n :=
  Vector.replicate n (Vector.replicate m 0)

def entry (a : Columns α m n) (i : Fin m) (j : Fin n) : α :=
  (a.get j).get i

/-- Entry `(i, j)` of the leading square block. -/
def lead (a : Columns α m n) (tall : n ≤ m) (i j : Fin n) : α :=
  a.entry (i.castLE tall) j

def ofEntries (f : Fin m → Fin n → α) : Columns α m n :=
  Vector.ofFn fun j => Vector.ofFn fun i => f i j

/-- The upper triangle of the leading `k × k` block, with zeros below it. -/
def upperTriangle [Zero α] (a : Columns α m n) (rows : k ≤ m) (cols : k ≤ n) : Columns α k k :=
  ofEntries fun i j => if i ≤ j then a.entry (i.castLE rows) (j.castLE cols) else 0

def withDiagonal (a : Columns α m n) (tall : n ≤ m) (d : Vector α n) : Columns α m n :=
  overwrite a fun j => overwriteAt (a.get j) (j.castLE tall) (d.get j)

def rows (a : Columns α m n) : List (List α) :=
  (List.finRange m).map fun i => a.toList.map fun col => col.get i

theorem eq_of_entry_eq {a b : Columns α m n} (same : ∀ i j, a.entry i j = b.entry i j) : a = b :=
  eq_of_get_eq fun j => eq_of_get_eq fun i => same i j

@[simp] theorem entry_ofEntries (f : Fin m → Fin n → α) (i : Fin m) (j : Fin n) :
    (ofEntries f).entry i j = f i j := by
  simp [ofEntries, entry, get_eq]

theorem entry_withDiagonal (a : Columns α m n) (tall : n ≤ m) (d : Vector α n) (i : Fin m)
    (j : Fin n) :
    (a.withDiagonal tall d).entry i j = if i.val = j then d.get j else a.entry i j := by
  simp [withDiagonal, entry, Fin.ext_iff, eq_comm]

theorem lead_withDiagonal (a : Columns α m n) (tall : n ≤ m) (d : Vector α n) (i j : Fin n) :
    (a.withDiagonal tall d).lead tall i j = if i = j then d.get j else a.lead tall i j := by
  simp [lead, entry_withDiagonal, Fin.ext_iff]

/-- A matrix from its rows, if all of them have `n` entries. -/
def ofRows? (rows : Array (Array α)) (n : Nat) : Option (Columns α rows.size n) :=
  if wide : ∀ i : Fin rows.size, rows[i].size = n then
    some (ofEntries fun i j =>
      have bound : j < rows[i].size := (wide i).symm ▸ j.isLt
      rows[i][j])
  else none

end Columns

end LeastSquares
