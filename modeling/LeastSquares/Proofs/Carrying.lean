import LeastSquares.Uncertainty.Covariance

/-!
# Carrying a triangle to unpivoted order

The entries of an upper triangle are carried, one by one, to the places that their parameters have
in the lower triangle. No place is written twice and nothing above the diagonal is written at all,
so the work can be done in place.
-/
namespace LeastSquares

namespace Columns

variable {α : Type} {m n : Nat}

/-! ### Places -/

/-- The place below the diagonal of the parameters at positions `i` and `j`. -/
def Place (pivots : Vector (Fin n) n) (i j row col : Fin n) : Prop :=
  col < row ∧ (row = pivots.get i ∧ col = pivots.get j ∨ row = pivots.get j ∧ col = pivots.get i)

/-- No place is that of two pairs. -/
theorem Place.unique {pivots : Vector (Fin n) n} (apart : Function.Injective pivots.get)
    {i j k l row col : Fin n} (before : i < j) (before' : k < l) (h : Place pivots i j row col)
    (h' : Place pivots k l row col) : k = i ∧ l = j := by
  obtain ⟨-, ⟨rfl, rfl⟩ | ⟨rfl, rfl⟩⟩ := h
  · obtain ⟨-, ⟨row, col⟩ | ⟨row, col⟩⟩ := h'
    · exact ⟨apart row.symm, apart col.symm⟩
    · have swapped : i = l ∧ j = k := ⟨apart row, apart col⟩
      omega
  · obtain ⟨-, ⟨row, col⟩ | ⟨row, col⟩⟩ := h'
    · have swapped : j = k ∧ i = l := ⟨apart row, apart col⟩
      omega
    · exact ⟨apart col.symm, apart row.symm⟩

/-- A pair has one place. -/
theorem Place.same {pivots : Vector (Fin n) n} {i j row col row' col' : Fin n}
    (h : Place pivots i j row col) (h' : Place pivots i j row' col') : row = row' ∧ col = col' := by
  obtain ⟨below, ⟨rfl, rfl⟩ | ⟨rfl, rfl⟩⟩ := h
  · obtain ⟨below', ⟨rfl, rfl⟩ | ⟨rfl, rfl⟩⟩ := h'
    · exact ⟨rfl, rfl⟩
    · omega
  · obtain ⟨below', ⟨rfl, rfl⟩ | ⟨rfl, rfl⟩⟩ := h'
    · omega
    · exact ⟨rfl, rfl⟩

/-- Two different positions have a place. -/
theorem Place.exists {pivots : Vector (Fin n) n} (apart : Function.Injective pivots.get)
    {i j : Fin n} (ne : i ≠ j) :
    Place pivots i j (pivots.get i) (pivots.get j) ∨
      Place pivots i j (pivots.get j) (pivots.get i) := by
  have ne : pivots.get i ≠ pivots.get j := fun same => ne (apart same)
  by_cases below : pivots.get j < pivots.get i
  · exact .inl ⟨below, .inl ⟨rfl, rfl⟩⟩
  · exact .inr ⟨by omega, .inr ⟨rfl, rfl⟩⟩

/-- Write one entry of the leading square block. -/
def write (tall : n ≤ m) (row col : Fin n) (x : α) (c : Columns α m n) : Columns α m n :=
  overwriteAt c col (overwriteAt (c.get col) (row.castLE tall) x)

theorem lead_write (tall : n ≤ m) (row col : Fin n) (x : α) (c : Columns α m n) (i j : Fin n) :
    (c.write tall row col x).lead tall i j =
      if row = i ∧ col = j then x else c.lead tall i j := by
  unfold write lead entry
  rw [get_overwriteAt]
  by_cases here : col = j
  · subst here
    simp [Fin.ext_iff]
  · simp [here]

/-- An entry on the diagonal is not carried, any other is written to its place. -/
theorem carryEntry_cases {pivots : Vector (Fin n) n} (apart : Function.Injective pivots.get)
    (tall : n ≤ m) (i j : Fin n) (c : Columns α m n) :
    i = j ∧ c.carryEntry tall pivots i j = c ∨
      ∃ row col, Place pivots i j row col ∧
        c.carryEntry tall pivots i j = c.write tall row col (c.lead tall i j) := by
  unfold carryEntry
  dsimp only
  split
  next below => exact .inr ⟨_, _, ⟨below, .inl ⟨rfl, rfl⟩⟩, rfl⟩
  next =>
    split
    next above => exact .inr ⟨_, _, ⟨above, .inr ⟨rfl, rfl⟩⟩, rfl⟩
    next => exact .inl ⟨apart (by omega), rfl⟩

/-! ### Carrying -/

/-- With the entries `done` carried: above and on the diagonal the matrix is still `r`, and below it
each of these entries of `r` is at its place. -/
structure Carried (tall : n ≤ m) (pivots : Vector (Fin n) n) (r : Columns α m n)
    (done : Fin n → Fin n → Prop) (c : Columns α m n) : Prop where
  upper : ∀ i j, i ≤ j → c.lead tall i j = r.lead tall i j
  lower : ∀ i j row col, i < j → done i j → Place pivots i j row col →
    c.lead tall row col = r.lead tall i j

namespace Carried

variable {tall : n ≤ m} {pivots : Vector (Fin n) n} {r c : Columns α m n}
  {done : Fin n → Fin n → Prop}

theorem mono {more : Fin n → Fin n → Prop} (h : Carried tall pivots r more c)
    (fewer : ∀ i j, i < j → done i j → more i j) : Carried tall pivots r done c where
  upper := h.upper
  lower i j row col lt carried := h.lower i j row col lt (fewer i j lt carried)

theorem carryEntry (h : Carried tall pivots r done c) (apart : Function.Injective pivots.get)
    {i j : Fin n} (le : i ≤ j) :
    Carried tall pivots r (fun k l => done k l ∨ k = i ∧ l = j) (c.carryEntry tall pivots i j) := by
  rcases carryEntry_cases apart tall i j c with ⟨rfl, same⟩ | ⟨row, col, place, written⟩
  · rw [same]
    refine h.mono fun k l lt carried => carried.resolve_right ?_
    rintro ⟨rfl, rfl⟩
    omega
  · have ne : i ≠ j := by
      rintro rfl
      obtain ⟨below, ⟨rfl, rfl⟩ | ⟨rfl, rfl⟩⟩ := place <;> omega
    have lt : i < j := by omega
    rw [written]
    exact {
      upper := fun k l upper => by
        rw [lead_write, if_neg (by rintro ⟨rfl, rfl⟩; exact absurd place.1 (by omega))]
        exact h.upper k l upper
      lower := fun k l row' col' before carried place' => by
        rw [lead_write]
        split
        next same =>
          obtain ⟨rfl, rfl⟩ := same
          obtain ⟨rfl, rfl⟩ := place.unique apart lt before place'
          exact h.upper k l le
        next other =>
          refine h.lower k l row' col' before (carried.resolve_right ?_) place'
          rintro ⟨rfl, rfl⟩
          exact other (place.same place') }

/-- Carrying the column at position `j`. -/
theorem carryColumn {j : Fin n} (h : Carried tall pivots r (fun _ l => l < j) c)
    (apart : Function.Injective pivots.get) :
    Carried tall pivots r (fun _ l => l.val < j + 1)
      (Fin.foldl n (fun c i => if i ≤ j then c.carryEntry tall pivots i j else c) c) := by
  have column := foldl_invariant (f := fun c i => if i ≤ j then c.carryEntry tall pivots i j else c)
    (fun i (c : Columns α m n) => Carried tall pivots r (fun k l => l < j ∨ l = j ∧ k.val < i) c)
    (b := c) (h.mono fun k l _ carried => by omega) ?_
  · exact column.mono fun k l lt carried => by omega
  · intro i c now
    split
    next le => exact (now.carryEntry apart le).mono fun k l lt carried => by omega
    next past => exact now.mono fun k l lt carried => by omega

end Carried

/-- All entries above the diagonal get carried. -/
theorem carry_carried {tall : n ≤ m} {pivots : Vector (Fin n) n}
    (apart : Function.Injective pivots.get) (r : Columns α m n) :
    Carried tall pivots r (fun _ _ => True) (r.carry tall pivots) := by
  have all := foldl_invariant (fun j (c : Columns α m n) =>
    Carried tall pivots r (fun _ l => l.val < j) c) (b := r)
    ⟨fun _ _ _ => rfl, fun _ _ _ _ _ none => absurd none (Nat.not_lt_zero _)⟩
    fun j c now => now.carryColumn apart
  exact all.mono fun _ l _ _ => l.isLt

/-! ### The whole matrix -/

theorem lead_symmetrize (tall : n ≤ m) (r : Columns α m n) (d : Vector α n) (i j : Fin n) :
    (r.symmetrize tall d).lead tall i j =
      if i < j then r.lead tall j i else if i = j then d.get j else r.lead tall i j := by
  simp [symmetrize, lead, entry]

theorem symmetrize_symmetric (tall : n ≤ m) (r : Columns α m n) (d : Vector α n) (i j : Fin n) :
    (r.symmetrize tall d).lead tall i j = (r.symmetrize tall d).lead tall j i := by
  rw [lead_symmetrize, lead_symmetrize]
  split
  next above => rw [if_neg (by omega), if_neg (by omega)]
  next =>
    split
    next same => rw [same, if_neg (by omega), if_pos rfl]
    next => rw [if_pos (by omega)]

/-- A triangle that has been carried and made symmetric has each entry at the two places of its
parameters. -/
theorem lead_symmetrize_carry {tall : n ≤ m} {pivots : Vector (Fin n) n}
    (apart : Function.Injective pivots.get) (r : Columns α m n) (d : Vector α n)
    (diagonal : ∀ j, d.get (pivots.get j) = r.lead tall j j) {i j : Fin n} (le : i ≤ j) :
    ((r.carry tall pivots).symmetrize tall d).lead tall (pivots.get i) (pivots.get j) =
      r.lead tall i j := by
  rw [lead_symmetrize]
  by_cases same : i = j
  · subst same
    rw [if_neg (by omega), if_pos rfl, diagonal]
  · have lt : i < j := by omega
    rcases Place.exists apart same with place | place
    · have order := place.1
      rw [if_neg (by omega), if_neg (by omega)]
      exact (carry_carried apart r).lower i j _ _ lt trivial place
    · rw [if_pos place.1]
      exact (carry_carried apart r).lower i j _ _ lt trivial place

variable [Scalar α]

/-- The inverse in the order of the positions, in the upper triangle. -/
def positioned (tall : n ≤ m) (rank : Nat) (r : Columns α m n) : Columns α m n :=
  ((r.invertTriangle tall rank).multiplyTranspose tall rank).clearFrom tall rank

theorem lead_clearFrom {tall : n ≤ m} {rank : Nat} (a : Columns α m n) {i j : Fin n} (le : i ≤ j) :
    (a.clearFrom tall rank).lead tall i j = if rank ≤ j then 0 else a.lead tall i j := by
  unfold clearFrom lead entry
  rw [get_overwrite]
  split
  · rw [get_overwriteWhere, if_pos (show i.castLE tall ≤ j.castLE tall from le)]
  · rfl

/-- The inverse is symmetric, and has at the places of two parameters what it had in the order of
the positions. -/
theorem lead_gramInverse {tall : n ≤ m} {pivots : Vector (Fin n) n}
    (apart : Function.Injective pivots.get) (r : Columns α m n) (tol : α) :
    let inverse := (r.gramInverse tall pivots tol).1
    (∀ k l, inverse.lead tall k l = inverse.lead tall l k) ∧
      ∀ i j, i ≤ j → inverse.lead tall (pivots.get i) (pivots.get j) =
        (r.positioned tall (r.leadingRank tall tol)).lead tall i j := by
  refine ⟨fun k l => symmetrize_symmetric .., fun i j le => ?_⟩
  refine lead_symmetrize_carry apart _ _ (fun j => ?_) le
  rw [get_scatter apart, get_eq, Vector.getElem_ofFn]

end Columns

end LeastSquares
