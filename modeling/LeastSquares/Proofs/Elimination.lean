import LeastSquares.Factor.Pivoted

/-!
# Steps of a factorization

What each step does, entry by entry: it exchanges two columns, if there is pivoting, and reflects
the column at its position with all columns after it. Whether norms are kept up along the way makes
no difference to the columns.
-/
namespace LeastSquares.Factor

/-! ### Exchanges -/

section

variable {α : Type} {m n : Nat} (f : Factor α m n) (col best c : Fin n)

theorem get_exchange_packed : (f.exchange col best).packed.get c =
    f.packed.get (if c = col then best else if c = best then col else c) := by
  simp only [exchange, get_interchange]
  split
  · rfl
  · split <;> rfl

theorem get_exchange_pivots : (f.exchange col best).pivots.get c =
    f.pivots.get (if c = col then best else if c = best then col else c) := by
  simp only [exchange, get_interchange]
  split
  · rfl
  · split <;> rfl

theorem get_exchange_rdiag :
    (f.exchange col best).rdiag.get c = f.rdiag.get (if c = best then col else c) := by
  simp only [exchange, get_overwriteAt, eq_comm]
  split <;> rfl

end

/-- An exchange leaves the positions before it as they are. -/
theorem exchanged_of_lt {n : Nat} {col best c : Fin n} (inside : col ≤ best) (before : c < col) :
    (if c = col then best else if c = best then col else c) = c := by
  rw [if_neg (Fin.ne_of_lt before), if_neg (Fin.ne_of_lt (Fin.lt_of_lt_of_le before inside))]

variable {α : Type} [Scalar α] {m n : Nat}

/-- A pivot is chosen from the remaining positions, whatever the norms compare like. -/
theorem le_pivotFrom (j : Fin n) (remaining : Vector α n) : j ≤ pivotFrom j remaining := by
  refine foldl_invariant (fun _ best => j ≤ best) (Fin.le_refl j) fun k best inside => ?_
  split
  next better => exact better.1
  next => exact inside

/-! ### Eliminations -/

/-- The norm of what is left of the column at position `col`, with the sign of its first entry. -/
def signedLength (row : Fin m) (col : Fin n) (f : Factor α m n) : α :=
  if (f.packed.get col).get row < 0 then -tailNorm (f.packed.get col) row
  else tailNorm (f.packed.get col) row

/-- The reflector made for that column. -/
def columnReflector (row : Fin m) (col : Fin n) (f : Factor α m n) : Vector α m :=
  reflector row (f.signedLength row col) (f.packed.get col)

/-- The columns after the reflection of the one at position `col`. -/
def reflected (row : Fin m) (col : Fin n) (f : Factor α m n) : Columns α m n :=
  overwrite f.packed fun k =>
    if k = col then f.columnReflector row col
    else if col < k then reflect row (f.columnReflector row col) (f.packed.get k)
    else f.packed.get k

/-- The remaining and the reference norms of the columns `packed`. -/
def downdated (pivot : Bool) (row : Fin m) (col : Fin n) (f : Factor α m n)
    (packed : Columns α m n) : Vector (α × α) n :=
  overwrite f.rdiag fun k =>
    if pivot ∧ col < k then downdate row (packed.get k) (f.rdiag.get k) (f.reference.get k)
    else (f.rdiag.get k, f.reference.get k)

variable {pivot : Bool} {row : Fin m} {col : Fin n} {f : Factor α m n}

theorem eliminate_of_none (none : (tailNorm (f.packed.get col) row == 0) = true) :
    f.eliminate pivot row col =
      { f with rdiag := overwriteAt f.rdiag col (-tailNorm (f.packed.get col) row) } :=
  if_pos none

theorem eliminate_of_size (some : ¬ (tailNorm (f.packed.get col) row == 0)) :
    f.eliminate pivot row col =
      let updated := f.downdated pivot row col (f.reflected row col)
      { f with
        packed := f.reflected row col
        rdiag := overwriteAt (updated.map (·.1)) col (-f.signedLength row col)
        reference := updated.map (·.2) } :=
  if_neg some

variable (pivot row col f)

theorem eliminate_packed : (f.eliminate pivot row col).packed =
    if tailNorm (f.packed.get col) row == 0 then f.packed else f.reflected row col := by
  split
  next none => rw [eliminate_of_none none]
  next some => rw [eliminate_of_size some]

theorem get_eliminate_rdiag : (f.eliminate pivot row col).rdiag.get col =
    if tailNorm (f.packed.get col) row == 0 then -tailNorm (f.packed.get col) row
    else -f.signedLength row col := by
  split
  next none => rw [eliminate_of_none none, get_overwriteAt, if_pos rfl]
  next some => rw [eliminate_of_size some, get_overwriteAt, if_pos rfl]

/-- The diagonal entries before position `col` are final. -/
theorem get_eliminate_rdiag_of_lt {c : Fin n} (before : c < col) :
    (f.eliminate pivot row col).rdiag.get c = f.rdiag.get c := by
  by_cases none : (tailNorm (f.packed.get col) row == 0) = true
  · rw [eliminate_of_none none, get_overwriteAt, if_neg (Fin.ne_of_gt before)]
  · rw [eliminate_of_size none, get_overwriteAt, if_neg (Fin.ne_of_gt before), get_map, downdated,
      get_overwrite, if_neg fun later => Fin.lt_asymm before later.2]

/-! ### Step by step -/

/-- The factorization as it stands after its first `k` steps. -/
def after (pivot : Bool) (f : Factor α m n) : Nat → Factor α m n
  | 0 => f.prepare pivot
  | k + 1 =>
    if inside : k < min m n then
      (f.after pivot k).step pivot ⟨k, Nat.lt_of_lt_of_le inside (Nat.min_le_left m n)⟩
        ⟨k, Nat.lt_of_lt_of_le inside (Nat.min_le_right m n)⟩
    else f.after pivot k

theorem after_succ (j : Fin (min m n)) : f.after pivot (j + 1) =
    (f.after pivot j).step pivot (j.castLE (Nat.min_le_left m n))
      (j.castLE (Nat.min_le_right m n)) :=
  dif_pos j.isLt

theorem compute_eq_after : f.compute pivot = f.after pivot (min m n) :=
  foldl_invariant (fun k done => done = f.after pivot k) rfl fun j done now => by
    rw [after_succ, ← now]

variable {pivot f}

/-- What a step hands on to the next one holds between any two of them. -/
theorem after_invariant (P : Nat → Factor α m n → Prop) (start : P 0 (f.prepare pivot))
    (step : ∀ (j : Fin (min m n)) (g : Factor α m n), P j g →
      P (j + 1) (g.step pivot (j.castLE (Nat.min_le_left m n)) (j.castLE (Nat.min_le_right m n))))
    {k : Nat} (inside : k ≤ min m n) : P k (f.after pivot k) := by
  induction k with
  | zero => exact start
  | succ k ih =>
    rw [after_succ pivot f ⟨k, inside⟩]
    exact step ⟨k, inside⟩ _ (ih (Nat.le_of_succ_le inside))

end LeastSquares.Factor
