import LeastSquares.Checked.Memory
import LeastSquares.Factor.Pivoted

/-!
# The factorization on checked storage

The factorization with column pivoting, loop by loop and entry by entry. The pivots are plain
numbers: nothing but the exchanges keeps them a permutation.
-/
namespace LeastSquares.Checked

variable {α : Type} [Scalar α] {m n : Nat}

structure Factor (α : Type) (m n : Nat) where
  packed : Columns α m n
  pivots : Vector Nat n
  rdiag : Vector α n
  norms : Vector α n
  reference : Vector α n

namespace Factor

def prepare (pivot : Bool) (f : Factor α m n) : Option (Factor α m n) :=
  loop 0 n (fun j f => do
    let norms ← write f.norms j (norm (← read f.packed j).toList)
    let rdiag ← write f.rdiag j (← read norms j)
    let reference ← write f.reference j (← read rdiag j)
    let pivots ← if pivot then write f.pivots j j else some f.pivots
    return { f with pivots, rdiag, norms, reference }) f

def pivotFrom (j : Nat) (remaining : Vector α n) : Option Nat :=
  loop j n (fun k best => do
    return if (← read remaining k) > (← read remaining best) then k else best) j

/-- Exchange columns `j` and `k`, row by row. -/
def exchangeColumns (j k : Nat) (a : Columns α m n) : Option (Columns α m n) :=
  loop 0 m (fun i a => do
    let x ← readEntry a i j
    let y ← readEntry a i k
    writeEntry (← writeEntry a i j y) i k x) a

def exchange (j k : Nat) (f : Factor α m n) : Option (Factor α m n) :=
  if k = j then some f
  else do
    let packed ← exchangeColumns j k f.packed
    let rdiag ← write f.rdiag k (← read f.rdiag j)
    let reference ← write f.reference k (← read f.reference j)
    let pivots ← swap f.pivots j k
    return { f with packed, pivots, rdiag, reference }

def downdate (j k : Nat) (f : Factor α m n) : Option (Factor α m n) := do
  let remaining ← read f.rdiag k
  if remaining == 0 then return f
  else
    let t := (← readEntry f.packed j k) / remaining
    let reduced := remaining * sqrt (larger (1 - t * t) 0)
    let ratio := reduced / (← read f.reference k)
    if 0.05 * ratio * ratio ≤ Numeric.epsilon then
      let fresh := norm (← slice (← read f.packed k) (j + 1) m)
      return { f with
        rdiag := ← write f.rdiag k fresh
        reference := ← write f.reference k fresh }
    else
      return { f with rdiag := ← write f.rdiag k reduced }

/-- Make column `j` its own reflector. -/
def reflector (length : α) (j : Nat) (a : Columns α m n) : Option (Columns α m n) := do
  let a ← fillColumn j m j (fun i a => do return (← readEntry a i j) / length) a
  writeEntry a j j ((← readEntry a j j) + 1)

/-- Apply the reflector in column `j` to column `k`. -/
def reflect (j k : Nat) (a : Columns α m n) : Option (Columns α m n) := do
  let product ← sum j m fun i => do return (← readEntry a i j) * (← readEntry a i k)
  let t := product / (← readEntry a j j)
  fillColumn j m k (fun i a => do return (← readEntry a i k) - t * (← readEntry a i j)) a

/-- Apply the reflector in column `j` to column `k`, and reduce the norm of that column. -/
def reflectColumn (pivot : Bool) (j k : Nat) (f : Factor α m n) : Option (Factor α m n) := do
  let f := { f with packed := ← reflect j k f.packed }
  if pivot then f.downdate j k else some f

def eliminate (pivot : Bool) (j : Nat) (f : Factor α m n) : Option (Factor α m n) := do
  let size := norm (← slice (← read f.packed j) j m)
  if size == 0 then
    return { f with rdiag := ← write f.rdiag j (-size) }
  else
    let length := if (← readEntry f.packed j j) < 0 then -size else size
    let packed ← reflector length j f.packed
    let f ← loop (j + 1) n (reflectColumn pivot j) { f with packed }
    return { f with rdiag := ← write f.rdiag j (-length) }

def step (pivot : Bool) (j : Nat) (f : Factor α m n) : Option (Factor α m n) := do
  let f ← if pivot then f.exchange j (← pivotFrom j f.rdiag) else some f
  f.eliminate pivot j

/-- Factor the packed matrix, overwriting the buffers that come with it. -/
def compute (pivot : Bool) (f : Factor α m n) : Option (Factor α m n) := do
  loop 0 (min m n) (step pivot) (← f.prepare pivot)

end Factor

end LeastSquares.Checked
