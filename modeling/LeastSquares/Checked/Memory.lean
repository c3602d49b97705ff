import LeastSquares.Columns

/-!
# Checked storage

Storage that is indexed by plain numbers, by a program that carries no proofs along with its
indices. Every index is compared with the length of what it is used on; one that is out of bounds
ends the program without a result.
-/
namespace LeastSquares.Checked

variable {α β σ : Type} {k m n : Nat}

def read (v : Vector β k) (i : Nat) : Option β :=
  v[i]?

def write (v : Vector β k) (i : Nat) (x : β) : Option (Vector β k) :=
  if inside : i < k then some (v.set i x) else none

def swap (v : Vector β k) (i j : Nat) : Option (Vector β k) := do
  let x ← read v i
  let y ← read v j
  write (← write v i y) j x

/-- The entries from `lo` up to `hi`. -/
def slice (v : Vector β k) (lo hi : Nat) : Option (List β) :=
  if lo ≤ hi ∧ hi ≤ k then some ((v.toList.take hi).drop lo) else none

def readEntry (a : Columns α m n) (i j : Nat) : Option α := do
  read (← read a j) i

def writeEntry (a : Columns α m n) (i j : Nat) (x : α) : Option (Columns α m n) := do
  write a j (← write (← read a j) i x)

/-- Run `body` for the indices from `lo` up to `hi`, in this order. -/
def loop (lo hi : Nat) (body : Nat → σ → Option σ) (s : σ) : Option σ :=
  (List.range' lo (hi - lo)).foldlM (fun s i => body i s) s

/-- Run `body` for the indices below `hi`, from the last one down. -/
def loopDown (hi : Nat) (body : Nat → σ → Option σ) (s : σ) : Option σ :=
  (List.range hi).foldrM body s

/-- Write the entries from `lo` up to `hi`, each computed from the vector as it is by then. -/
def fill (lo hi : Nat) (f : Nat → Vector β k → Option β) (v : Vector β k) : Option (Vector β k) :=
  loop lo hi (fun i v => do write v i (← f i v)) v

/-- Write the entries of column `j` from row `lo` up to row `hi`. -/
def fillColumn (lo hi j : Nat) (f : Nat → Columns α m n → Option α) (a : Columns α m n) :
    Option (Columns α m n) :=
  loop lo hi (fun i a => do writeEntry a i j (← f i a)) a

def sum [Numeric α] (lo hi : Nat) (f : Nat → Option α) : Option α :=
  loop lo hi (fun i s => do return s + (← f i)) 0

/-- The first index below `n` where `f` is zero, or `n` when there is none. -/
def firstZero [Numeric α] (n : Nat) (f : Nat → Option α) : Option Nat :=
  loop 0 n (fun i found => do return if found = n ∧ (← f i) == 0 then i else found) n

/-- Write `w[j]` at position `place[j]`, for each `j` in turn. -/
def scatter (place : Vector Nat n) (w : Vector α k) (v : Vector α n) : Option (Vector α n) :=
  loop 0 n (fun j v => do write v (← read place j) (← read w j)) v

/-- Pivots as plain numbers. -/
def indices (pivots : Vector (Fin n) n) : Vector Nat n :=
  pivots.map (·.val)

/-- Plain numbers as pivots, if all of them are in range. -/
def pivots? (places : Vector Nat n) : Option (Vector (Fin n) n) :=
  if inside : ∀ j, places.get j < n then
    some (Vector.ofFn fun j => ⟨places.get j, inside j⟩)
  else none

/-! ### Indices in bounds -/

@[simp] theorem read_val (v : Vector β k) (i : Fin k) : read v i = some (v.get i) :=
  Vector.getElem?_eq_getElem i.isLt

@[simp] theorem write_val (v : Vector β k) (i : Fin k) (x : β) :
    write v i x = some (overwriteAt v i x) :=
  dif_pos i.isLt

@[simp] theorem swap_val (v : Vector β k) (i j : Fin k) :
    swap v i j = some (interchange v i j) := by
  have exchanged : overwriteAt (overwriteAt v i (v.get j)) j (v.get i) = interchange v i j := by
    apply eq_of_get_eq
    intro l
    grind [get_overwriteAt, get_interchange]
  simp [swap, exchanged]

@[simp] theorem readEntry_val (a : Columns α m n) (i : Fin m) (j : Fin n) :
    readEntry a i j = some (a.entry i j) := by
  simp [readEntry, Columns.entry]

@[simp] theorem writeEntry_val (a : Columns α m n) (i : Fin m) (j : Fin n) (x : α) :
    writeEntry a i j x = some (overwriteAt a j (overwriteAt (a.get j) i x)) := by
  simp [writeEntry]

theorem read_of_lt (v : Vector β k) {i : Nat} (inside : i < k) :
    read v i = some (v.get ⟨i, inside⟩) :=
  read_val v ⟨i, inside⟩

theorem write_of_lt (v : Vector β k) {i : Nat} (inside : i < k) (x : β) :
    write v i x = some (overwriteAt v ⟨i, inside⟩ x) :=
  write_val v ⟨i, inside⟩ x

theorem readEntry_of_lt (a : Columns α m n) {i j : Nat} (row : i < m) (col : j < n) :
    readEntry a i j = some (a.entry ⟨i, row⟩ ⟨j, col⟩) :=
  readEntry_val a ⟨i, row⟩ ⟨j, col⟩

theorem writeEntry_of_lt (a : Columns α m n) {i j : Nat} (row : i < m) (col : j < n) (x : α) :
    writeEntry a i j x =
      some (overwriteAt a ⟨j, col⟩ (overwriteAt (a.get ⟨j, col⟩) ⟨i, row⟩ x)) :=
  writeEntry_val a ⟨i, row⟩ ⟨j, col⟩ x

theorem readEntry_lead (tall : n ≤ m) (a : Columns α m n) (i j : Fin n) :
    readEntry a i j = some (a.lead tall i j) :=
  readEntry_val a (i.castLE tall) j

theorem writeEntry_lead (tall : n ≤ m) (a : Columns α m n) (i j : Fin n) (x : α) :
    writeEntry a i j x = some (overwriteAt a j (overwriteAt (a.get j) (i.castLE tall) x)) :=
  writeEntry_val a (i.castLE tall) j x

theorem slice_drop (v : Vector β k) {lo : Nat} (inside : lo ≤ k) :
    slice v lo k = some (v.toList.drop lo) := by
  rw [slice, if_pos ⟨inside, Nat.le_refl k⟩, List.take_of_length_le (by simp)]

@[simp] theorem get_indices (pivots : Vector (Fin n) n) (j : Fin n) :
    (indices pivots).get j = (pivots.get j).val :=
  get_map ..

theorem read_indices (pivots : Vector (Fin n) n) (j : Fin n) :
    read (indices pivots) j = some (pivots.get j).val := by
  rw [read_val, get_indices]

@[simp] theorem pivots?_indices (pivots : Vector (Fin n) n) :
    pivots? (indices pivots) = some pivots := by
  rw [pivots?, dif_pos fun j => by rw [get_indices]; exact (pivots.get j).isLt]
  refine congrArg some (eq_of_get_eq fun j => Fin.ext ?_)
  simp [get_eq, indices]

example : read #v[5, 7] 1 = some 7 ∧ read #v[5, 7] 2 = none := by decide

end LeastSquares.Checked
