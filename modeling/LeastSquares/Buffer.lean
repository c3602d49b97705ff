import LeastSquares.Norm

/-!
# Buffers

Vectors that a routine writes into, and sums over ranges of indices. Overwriting all entries
leaves nothing of what the buffer held; overwriting some leaves the others as they were.
-/
namespace LeastSquares

variable {α β : Type} {k n : Nat}

def overwrite (v : Vector β n) (f : Fin n → α) : Vector α n :=
  v.mapFinIdx fun i _ h => f ⟨i, h⟩

def overwriteWhere (v : Vector α n) (p : Fin n → Prop) [DecidablePred p] (f : Fin n → α) :
    Vector α n :=
  v.mapFinIdx fun i x h => if p ⟨i, h⟩ then f ⟨i, h⟩ else x

/-- Overwrite the first `n` entries of a buffer of any length. -/
def overwriteHead (v : Vector α k) (f : Fin n → α) : Vector α k :=
  v.mapFinIdx fun i x _ => if h : i < n then f ⟨i, h⟩ else x

def overwriteAt (v : Vector α n) (j : Fin n) (x : α) : Vector α n :=
  v.set j x

def interchange (v : Vector α n) (j k : Fin n) : Vector α n :=
  v.swap j k

/-- Write `w.get j` at position `place.get j`, for each `j` in turn. -/
def scatter (place : Vector (Fin n) n) (w v : Vector α n) : Vector α n :=
  Fin.foldl n (fun v j => overwriteAt v (place.get j) (w.get j)) v

theorem get_eq (v : Vector α n) (i : Fin n) : v.get i = v[i.val] := rfl

theorem eq_of_get_eq {v w : Vector α n} (same : ∀ i, v.get i = w.get i) : v = w := by
  ext i h
  exact same ⟨i, h⟩

theorem get_map (v : Vector β n) (f : β → α) (i : Fin n) : (v.map f).get i = f (v.get i) := by
  simp [get_eq]

@[simp] theorem get_overwrite (v : Vector β n) (f : Fin n → α) (i : Fin n) :
    (overwrite v f).get i = f i := by
  simp [overwrite, get_eq]

@[simp] theorem get_overwriteWhere (v : Vector α n) (p : Fin n → Prop) [DecidablePred p]
    (f : Fin n → α) (i : Fin n) :
    (overwriteWhere v p f).get i = if p i then f i else v.get i := by
  simp [overwriteWhere, get_eq]

@[simp] theorem get_overwriteHead (v : Vector α k) (f : Fin n → α) (i : Fin k) :
    (overwriteHead v f).get i = if h : i < n then f ⟨i, h⟩ else v.get i := by
  simp [overwriteHead, get_eq]

@[simp] theorem get_overwriteAt (v : Vector α n) (j : Fin n) (x : α) (i : Fin n) :
    (overwriteAt v j x).get i = if j = i then x else v.get i := by
  simp [overwriteAt, get_eq, Vector.getElem_set, Fin.ext_iff]

theorem get_interchange (v : Vector α n) (j k i : Fin n) :
    (interchange v j k).get i = if i = j then v.get k else if i = k then v.get j else v.get i := by
  simp [interchange, get_eq, Vector.getElem_swap, Fin.ext_iff]

/-- Putting back the value an entry had undoes its overwriting. -/
theorem overwriteAt_restore (v : Vector α n) (j : Fin n) (x : α) :
    overwriteAt (overwriteAt v j x) j (v.get j) = v := by
  apply eq_of_get_eq
  intro i
  by_cases same : j = i <;> simp [same]

theorem overwrite_eq_ofFn (v : Vector β n) (f : Fin n → α) : overwrite v f = Vector.ofFn f :=
  eq_of_get_eq fun i => by rw [get_overwrite, get_eq, Vector.getElem_ofFn]

/-- Nothing of a buffer of just the right length survives either. -/
theorem overwriteHead_eq_ofFn (v : Vector α n) (f : Fin n → α) :
    overwriteHead v f = Vector.ofFn f :=
  eq_of_get_eq fun i => by rw [get_overwriteHead, dif_pos i.isLt, get_eq, Vector.getElem_ofFn]

theorem overwrite_get (v : Vector β n) (w : Vector α n) : overwrite v w.get = w :=
  eq_of_get_eq fun i => get_overwrite v w.get i

/-- What holds of `P i` before step `i` of a traversal, and therefore of `P (i + 1)` after it, holds
of `P n` at its end. -/
theorem foldl_invariant {f : β → Fin n → β} (P : Nat → β → Prop) {b : β} (start : P 0 b)
    (step : ∀ (i : Fin n) (b : β), P i b → P (i + 1) (f b i)) : P n (Fin.foldl n f b) := by
  induction n with
  | zero => exact start
  | succ n ih =>
    rw [Fin.foldl_succ_last]
    exact step (Fin.last n) _ (ih fun i b now => step i.castSucc b now)

/-- Two traversals side by side: what relates the values before step `i`, and therefore after it,
relates them at the end. -/
theorem foldl_related {γ : Type} {f : β → Fin n → β} {g : γ → Fin n → γ} (R : Nat → β → γ → Prop)
    {b : β} {c : γ} (start : R 0 b c)
    (step : ∀ (i : Fin n) (b : β) (c : γ), R i b c → R (i + 1) (f b i) (g c i)) :
    R n (Fin.foldl n f b) (Fin.foldl n g c) := by
  induction n with
  | zero => exact start
  | succ n ih =>
    rw [Fin.foldl_succ_last, Fin.foldl_succ_last]
    exact step (Fin.last n) _ _ (ih fun i b c now => step i.castSucc b c now)

/-- What holds of `P (i + 1)` before step `i` of a traversal from the last index down, and therefore
of `P i` after it, holds of `P 0` at its end. -/
theorem foldr_invariant {f : Fin n → β → β} (P : Nat → β → Prop) {b : β} (start : P n b)
    (step : ∀ (i : Fin n) (b : β), P (i + 1) b → P i (f i b)) : P 0 (Fin.foldr n f b) := by
  induction n generalizing P with
  | zero => exact start
  | succ n ih =>
    rw [Fin.foldr_succ]
    exact step 0 _ (ih (fun i => P (i + 1)) start fun i b now => step i.succ b now)

/-- Of values written to places all different, each is where it was written to. -/
theorem get_scatter {place : Vector (Fin n) n} (apart : Function.Injective place.get)
    (w v : Vector α n) (j : Fin n) : (scatter place w v).get (place.get j) = w.get j := by
  refine foldl_invariant (fun i (v : Vector α n) => ∀ j : Fin n, j.val < i →
    v.get (place.get j) = w.get j) (fun j none => absurd none (by omega)) ?_ j j.isLt
  intro i v written j now
  rw [get_overwriteAt]
  rcases Nat.lt_succ_iff_lt_or_eq.mp now with earlier | same
  · rw [if_neg fun same => absurd (apart same) (by omega)]
    exact written j earlier
  · obtain rfl : j = i := Fin.ext same
    exact if_pos rfl

/-- The first index that satisfies `p`, or `n` when there is none. -/
def firstIndex (p : Fin n → Bool) : Nat :=
  (List.finRange n).findIdx p

theorem firstIndex_le (p : Fin n → Bool) : firstIndex p ≤ n := by
  have bound := @List.findIdx_le_length _ p (List.finRange n)
  rwa [List.length_finRange] at bound

theorem eq_false_of_lt_firstIndex {p : Fin n → Bool} {j : Fin n} (before : j < firstIndex p) :
    p j = false := by
  have earlier := List.not_of_lt_findIdx before
  simpa using earlier

theorem firstIndex_spec {p : Fin n → Bool} (found : firstIndex p < n) :
    p ⟨firstIndex p, found⟩ = true := by
  have here := @List.findIdx_getElem _ p (List.finRange n) (by simpa [firstIndex] using found)
  simpa [firstIndex] using here

theorem firstIndex_eq {p : Fin n → Bool} (none : ∀ j, p j = false) : firstIndex p = n := by
  refine Nat.le_antisymm (firstIndex_le p) (Nat.not_lt.mp fun found => ?_)
  have here := firstIndex_spec found
  rw [none] at here
  cases here

theorem lt_firstIndex_iff {p : Fin n → Bool} {j : Fin n} :
    j < firstIndex p ↔ ∀ i ≤ j, p i = false := by
  constructor
  · exact fun before i le => eq_false_of_lt_firstIndex (Nat.lt_of_le_of_lt le before)
  · intro none
    refine Nat.not_le.mp fun past => ?_
    have found : firstIndex p < n := Nat.lt_of_le_of_lt past j.isLt
    have here := firstIndex_spec found
    rw [none ⟨firstIndex p, found⟩ past] at here
    cases here

/-- The sum of `f i` over the indices with `p i`, added to zero in increasing order. -/
def sumWhere [Numeric α] (p : Fin n → Prop) [DecidablePred p] (f : Fin n → α) : α :=
  Fin.foldl n (fun s i => if p i then s + f i else s) 0

def tailNorm [Scalar α] (v : Vector α n) (j : Nat) : α :=
  norm (v.toList.drop j)

end LeastSquares
