import LeastSquares.Checked.Damping
import LeastSquares.Proofs.Checked.Loops

/-!
# Damped solves stay in bounds

On checked storage a damped solve never meets an index out of bounds, and leaves what the damped
solve itself does. There the diagonal of `R` is away while all rows are absorbed; here it comes
back row by row, as no later row touches it.
-/
namespace LeastSquares.Checked

variable {α : Type} {m n k : Nat}

/-! ### The diagonal of `R` -/

section

variable (tall : n ≤ m) (saved : Vector α n)

/-- A matrix whose first `j` diagonal entries are those that have been saved. -/
def restored (j : Nat) (a : Columns α m n) : Columns α m n :=
  filled 0 j (fun l => overwriteAt (a.get l) (l.castLE tall) (saved.get l)) a

theorem restored_zero (a : Columns α m n) : restored tall saved 0 a = a :=
  filled_self ..

theorem restored_all (a : Columns α m n) : restored tall saved n a = a.withDiagonal tall saved :=
  filled_all ..

theorem get_restored {j : Nat} (a : Columns α m n) {l : Fin n} (ahead : j ≤ l.val) :
    (restored tall saved j a).get l = a.get l :=
  get_filled_of_le _ _ ahead

theorem restored_succ (j : Fin n) (a : Columns α m n) :
    overwriteAt (restored tall saved j a) j (overwriteAt (a.get j) (j.castLE tall) (saved.get j)) =
      restored tall saved (j + 1) a :=
  overwriteAt_filled (Nat.zero_le j)
    (fun l => overwriteAt (a.get l) (l.castLE tall) (saved.get l)) a

theorem restored_overwriteAt {j : Nat} (a : Columns α m n) {l : Fin n} (ahead : j ≤ l.val)
    (c : Vector α m) :
    restored tall saved j (overwriteAt a l c) = overwriteAt (restored tall saved j a) l c := by
  apply eq_of_get_eq
  intro i
  simp only [restored, get_filled, get_overwriteAt]
  grind

end

/-! ### The copy of `R` -/

variable (tall : n ≤ m)

/-- The column of the copy. -/
def copied (r : Columns α m n) (j : Fin n) : Vector α m :=
  overwriteHead (r.get j) fun i : Fin n => if j ≤ i then r.lead tall j i else r.lead tall i j

/-- Row `j` of `R` is still in its place when it is copied. -/
theorem fillColumn_copied (r : Columns α m n) (j : Fin n) :
    fillColumn j n j (fun i r => readEntry r j i) (filled 0 j (copied tall r) r) =
      some (filled 0 (j + 1) (copied tall r) r) := by
  let row (i : Fin n) : α := r.lead tall j i
  have untouched {l : Fin n} (ahead : j ≤ l) : (filled 0 j (copied tall r) r).get l = r.get l :=
    get_filled_of_le _ _ ahead
  have column : filled j n (onHead row (r.get j)) (r.get j) = copied tall r j :=
    filled_onHead tall j row (r.get j)
  rw [fillColumn_eq tall j (onHead row (r.get j)), untouched (Nat.le_refl j), column,
    overwriteAt_filled (Nat.zero_le j)]
  intro i from_j below
  have row_i : onHead row (r.get j) i = r.lead tall j ⟨i, below⟩ := dif_pos below
  rw [row_i, readEntry_of_lt _ (Nat.lt_of_lt_of_le j.isLt tall) below, entry_overwriteAt]
  split
  next same =>
    -- The diagonal entry is copied onto itself.
    obtain rfl : i = j.castLE tall := Fin.ext (congrArg Fin.val same).symm
    rw [untouched (Nat.le_refl j)]
    exact congrArg some (get_filled_of_le (i := j) (l := j.castLE tall) _ _ (Nat.le_refl _))
  next =>
    rw [Columns.entry, untouched from_j]
    rfl

namespace Scratch

theorem copyRow_all (fits : n ≤ k) (r : Columns α m n) (qtb x sdiag direction w : Vector α n)
    (base : Vector α k) :
    loop 0 n (copyRow qtb) ⟨r, x, sdiag, direction, base⟩ =
      some ⟨Triangular.withLowerCopy tall r, overwrite x fun j => r.lead tall j j, sdiag, direction,
        kept base (overwrite w qtb.get)⟩ := by
  let state (j : Nat) : Scratch α m n k :=
    { r := filled 0 j (copied tall r) r
      x := filled 0 j (fun j => r.lead tall j j) x
      sdiag, direction
      scaled := kept base (filled 0 j qtb.get (head fits base)) }
  have last : overwrite (head fits base) qtb.get = overwrite w qtb.get := by
    rw [overwrite_get, overwrite_get]
  have done : state n = ⟨Triangular.withLowerCopy tall r, overwrite x fun j => r.lead tall j j,
      sdiag, direction, kept base (overwrite w qtb.get)⟩ := by
    simp only [state, filled_all, last]
    rfl
  have start : state 0 = ⟨r, x, sdiag, direction, base⟩ := by
    simp only [state, filled_self, kept_head]
  refine (loop_eq (Nat.le_refl n) state (Nat.zero_le n) start ?_).trans (congrArg some done)
  intro j _ _
  have next {β : Type} (g : Fin n → β) (v : Vector β n) := overwriteAt_filled (Nat.zero_le j) g v
  have entry : readEntry (filled 0 (j + 1) (copied tall r) r) j j = some (r.lead tall j j) := by
    rw [readEntry_lead tall, Columns.lead, Columns.entry, get_filled,
      if_pos ⟨Nat.zero_le _, Nat.lt_succ_self _⟩]
    simp [copied]
  unfold copyRow
  refine (bind_of_some (fillColumn_copied tall r j) _).trans ((bind_of_some entry _).trans ?_)
  simp [state, ← next, write_kept fits]

variable [Scalar α]

/-! ### Rotations -/

/-- A rotation turns the entries after `l` of column `l` and of the row, which are those of `below`
and of `row`. The rows from `n` on, for which `c` stands in, are not reached. -/
theorem turn_all (g : Rotation α) (l : Fin n) (s : Scratch α m n k) (c : Vector α m)
    {below row : Fin n → α} (column : ∀ i, l < i → s.r.lead tall i l = below i)
    (entries : ∀ i, l < i → s.sdiag.get i = row i) :
    loop (l + 1) n (turn g l) s = some { s with
      r := overwriteAt s.r l <|
        filled (l + 1) n (onHead (fun i => g.cos * below i + g.sin * row i) c) (s.r.get l)
      sdiag := filled (l + 1) n (fun i => -g.sin * below i + g.cos * row i) s.sdiag } := by
  let turned := onHead (fun i => g.cos * below i + g.sin * row i) c
  let left (i : Fin n) : α := -g.sin * below i + g.cos * row i
  let state (i : Nat) : Scratch α m n k :=
    { s with
      r := overwriteAt s.r l (filled (l + 1) i turned (s.r.get l))
      sdiag := filled (l + 1) i left s.sdiag }
  have start : state (l + 1) = s := by simp only [state, filled_self, overwriteAt_get]
  refine loop_eq (Nat.le_refl n) state l.isLt start ?_
  intro i after _
  have first : readEntry (state i).r i l = some (below i) := by
    rw [readEntry_lead tall, Columns.lead, entry_overwriteAt, if_pos rfl, ← column i after]
    exact congrArg some (get_filled_of_le turned (s.r.get l) (Nat.le_refl (i.castLE tall).val))
  have second : read (state i).sdiag i = some (row i) := by
    rw [read_val, get_filled_of_le _ _ (Nat.le_refl _), entries i after]
  have turned_i : turned (i.castLE tall) = g.cos * below i + g.sin * row i := onHead_castLE tall ..
  have column_next : overwriteAt (filled (l + 1) i turned (s.r.get l)) (i.castLE tall)
      (turned (i.castLE tall)) = filled (l + 1) (i + 1) turned (s.r.get l) :=
    overwriteAt_filled (i := i.castLE tall) after turned (s.r.get l)
  have row_next : overwriteAt (filled (l + 1) i left s.sdiag) i (left i) =
      filled (l + 1) (i + 1) left s.sdiag := overwriteAt_filled after left s.sdiag
  unfold turn
  refine (bind_of_some first _).trans ((bind_of_some second _).trans ?_)
  rw [← turned_i, write_val, writeEntry_lead tall]
  simp only [state, get_overwriteAt, if_true, overwriteAt_overwriteAt]
  rw [← column_next, ← row_next]
  rfl

/-- The storage while row `j` is absorbed, beside the right-hand side of the row. -/
def absorbing (j : Nat) (saved sdiag direction : Vector α n) (base : Vector α k)
    (a : Absorption α m n) : Scratch α m n k × α :=
  (⟨restored tall saved j a.triangle, saved, filled j n a.row.get sdiag, direction,
    kept base a.rhs⟩, a.extra)

variable (fits : n ≤ k) {saved sdiag direction : Vector α n} {base : Vector α k}

include fits

theorem rotate_eq {j : Nat} {l : Fin n} (from_j : j ≤ l.val) (a : Absorption α m n) :
    rotate l (absorbing tall j saved sdiag direction base a) =
      some (absorbing tall j saved sdiag direction base (a.rotate tall l)) := by
  let s := (absorbing tall j saved sdiag direction base a).1
  have entry : read s.sdiag l = some (a.row.get l) := by
    rw [read_val]
    exact congrArg some ((get_filled ..).trans (if_pos ⟨from_j, l.isLt⟩))
  unfold rotate
  refine (bind_of_some entry _).trans ?_
  by_cases zero : (a.row.get l == 0) = true
  · have skipped : a.rotate tall l = a := if_pos zero
    rw [skipped]
    exact if_pos zero
  let below (i : Fin n) : α := a.triangle.lead tall i l
  let g := Rotation.annihilate (below l) (a.row.get l)
  let turned := onHead (fun i => g.cos * below i + g.sin * a.row.get i) (a.triangle.get l)
  let left (i : Fin n) : α := -g.sin * below i + g.cos * a.row.get i
  have column : s.r.get l = a.triangle.get l := get_restored tall saved a.triangle from_j
  have pivot : readEntry s.r l l = some (below l) := by
    rw [readEntry_lead tall, Columns.lead, Columns.entry, column]
    rfl
  have rhs : read s.scaled l = some (a.rhs.get l) := read_kept fits base a.rhs l
  -- Entry `l` itself is turned ahead of the loop.
  let begun : Columns α m n := overwriteAt s.r l <|
    overwriteAt (s.r.get l) (l.castLE tall) (g.cos * below l + g.sin * a.row.get l)
  let scaled := kept base (overwriteAt a.rhs l (g.cos * a.rhs.get l + g.sin * a.extra))
  have after_l (i : Fin n) (after : l < i) : begun.lead tall i l = below i := by
    have apart : l.castLE tall ≠ i.castLE tall := Fin.ne_of_val_ne (Nat.ne_of_lt after)
    rw [Columns.lead, entry_overwriteAt, if_pos rfl, get_overwriteAt, if_neg apart, column]
    rfl
  have entries (i : Fin n) (after : l < i) : s.sdiag.get i = a.row.get i :=
    (get_filled ..).trans (if_pos ⟨Nat.le_trans from_j (Nat.le_of_lt after), i.isLt⟩)
  refine (if_neg zero).trans ((bind_of_some pivot _).trans ?_)
  refine (bind_of_some (writeEntry_lead tall s.r l l _) _).trans ((bind_of_some rhs _).trans ?_)
  refine (bind_of_some (write_kept fits base a.rhs l _) _).trans ?_
  refine (bind_of_some (turn_all tall g l { s with r := begun, scaled } (a.triangle.get l) after_l
    entries) _).trans ?_
  have column_next : overwriteAt begun l (filled (l + 1) n turned (begun.get l)) =
      overwriteAt s.r l (overwriteHead (a.triangle.get l) fun i : Fin n =>
        if l ≤ i then g.cos * below i + g.sin * a.row.get i else below i) := by
    rw [overwriteAt_overwriteAt, get_overwriteAt, if_pos rfl, column]
    exact congrArg _ (filled_onHead_after tall l _ (a.triangle.get l))
  have row_next : filled (l + 1) n left s.sdiag =
      filled j n (overwriteWhere a.row (l < ·) left).get sdiag := by
    have range (i : Fin n) : l < i ↔ l.val + 1 ≤ i.val ∧ i.val < n := by omega
    rw [← filled_eq range left a.row]
    exact filled_filled (Nat.le_succ_of_le from_j) left a.row sdiag
  have rotated : a.rotate tall l = _ := if_neg zero
  rw [rotated]
  refine congrArg some (Prod.ext ?_ rfl)
  simp only [absorbing, restored_overwriteAt tall saved _ from_j]
  congr 1

/-! ### Rows -/

omit fits in
/-- A rotation leaves alone what comes before it. -/
theorem rotate_before (a : Absorption α m n) {i l : Fin n} (before : i < l) :
    (a.rotate tall l).row.get i = a.row.get i ∧
      (a.rotate tall l).triangle.get i = a.triangle.get i := by
  unfold Absorption.rotate
  split
  · exact ⟨rfl, rfl⟩
  · simp [Fin.not_lt.mpr (Fin.le_of_lt before), Fin.ne_of_gt before]

omit fits in
/-- The zeros that a row starts with are passed over. -/
theorem run_from {j : Nat} (a : Absorption α m n)
    (zeros : ∀ i : Fin n, i.val < j → (a.row.get i == 0) = true) :
    Fin.foldl n (fun a l => if j ≤ l.val ∧ l.val < n then a.rotate tall l else a) a =
        a.run tall ∧
      ∀ i : Fin n, i.val < j → (a.run tall).triangle.get i = a.triangle.get i := by
  have related := foldl_related (fun _ (b c : Absorption α m n) => b = c ∧ ∀ i : Fin n, i.val < j →
    (c.row.get i == 0) = true ∧ c.triangle.get i = a.triangle.get i)
    (f := fun a l => if j ≤ l.val ∧ l.val < n then a.rotate tall l else a)
    (g := fun a l => a.rotate tall l) (b := a) (c := a) ⟨rfl, fun i before => ⟨zeros i before, rfl⟩⟩
    ?_
  · exact ⟨related.1, fun i before => (related.2 i before).2⟩
  rintro l b _ ⟨rfl, now⟩
  by_cases ahead : j ≤ l.val
  · refine ⟨if_pos ⟨ahead, l.isLt⟩, fun i before => ?_⟩
    obtain ⟨row, triangle⟩ := rotate_before tall b (show i < l from Nat.lt_of_lt_of_le before ahead)
    rw [row, triangle]
    exact now i before
  · have skipped : b.rotate tall l = b := if_pos (now l (Nat.not_le.mp ahead)).1
    rw [skipped]
    exact ⟨if_neg fun range => ahead range.1, now⟩

/-- Row `j` of the damping, with nothing on the right. -/
def dampingRow (damping : α) (j : Fin n) (triangle : Columns α m n) (rhs : Vector α n) :
    Absorption α m n :=
  { triangle, rhs
    row := Vector.ofFn fun l => if l = j then damping else 0
    extra := 0 }

omit fits in
theorem get_dampingRow (damping : α) (j : Fin n) (triangle : Columns α m n) (rhs : Vector α n)
    (l : Fin n) : (dampingRow damping j triangle rhs).row.get l = if l = j then damping else 0 := by
  simp [dampingRow, get_eq]

variable (zero : ((0 : α) == 0) = true)

include zero

theorem absorb_eq (damping : α) (j : Fin n) (triangle : Columns α m n) (rhs : Vector α n) :
    let done := (dampingRow damping j triangle rhs).run tall
    absorb damping j ⟨restored tall saved j triangle, saved, sdiag, direction, kept base rhs⟩ =
      some ⟨restored tall saved j done.triangle, saved, filled j n done.row.get sdiag, direction,
        kept base done.rhs⟩ := by
  intro done
  let row := dampingRow damping j triangle rhs
  have zeros (i : Fin n) (before : i.val < j) : (row.row.get i == 0) = true := by
    rw [get_dampingRow, if_neg (Fin.ne_of_lt before)]
    exact zero
  have cleared : fill j n (fun _ _ => some 0) sdiag = some (filled j n (fun _ => 0) sdiag) :=
    fill_eq (Nat.le_refl n) _ sdiag fun _ _ _ => rfl
  -- What lies before `j` in the row is left over and not read again.
  have begun : overwriteAt (filled j n (fun _ => 0) sdiag) j damping =
      filled j n row.row.get sdiag := by
    apply eq_of_get_eq
    intro l
    simp only [get_overwriteAt, get_filled, row, get_dampingRow]
    grind
  have rotations : loop j n rotate (absorbing tall j saved sdiag direction base row) =
      some (absorbing tall j saved sdiag direction base done) := by
    rw [loop_lift (Nat.le_refl n) (absorbing tall j saved sdiag direction base) row
      fun l a from_j _ => rotate_eq tall fits from_j a, (run_from tall row zeros).1]
  unfold absorb
  refine (bind_of_some cleared _).trans ((bind_of_some (write_val _ j damping) _).trans ?_)
  rw [begun]
  exact (bind_of_some rotations _).trans rfl

/-- One row, as far as the diagonal is not concerned. -/
theorem absorb_or_skip (s : Triangular α m n) (diag : Vector α n) (j : Fin n)
    (state : Columns α m n × Vector α n) :
    ∃ turned : Vector α n,
      (let stored : Scratch α m n k :=
        ⟨restored tall saved j state.1, saved, sdiag, direction, kept base state.2⟩
      if diag.get (s.pivots.get j) == 0 then some stored
      else stored.absorb (diag.get (s.pivots.get j)) j) =
        some ⟨restored tall saved j (s.absorbDamping tall diag j state).1, saved, turned, direction,
          kept base (s.absorbDamping tall diag j state).2⟩ ∧
      ∀ l : Fin n, l < j → turned.get l = sdiag.get l ∧
        (s.absorbDamping tall diag j state).1.get l = state.1.get l := by
  let damping := diag.get (s.pivots.get j)
  let row := dampingRow damping j state.1 state.2
  by_cases none : (damping == 0) = true
  · -- Nothing is rotated into the triangle by a row of zeros.
    have zeros (i : Fin n) (_ : i.val < n) : (row.row.get i == 0) = true := by
      rw [get_dampingRow]
      split
      · exact none
      · exact zero
    have unchanged : s.absorbDamping tall diag j state = state := by
      have run : row.run tall = row :=
        (run_from tall row zeros).1.symm.trans (foldl_skipped (by omega) row)
      exact congrArg (fun done : Absorption α m n => (done.triangle, done.rhs)) run
    rw [unchanged]
    exact ⟨sdiag, if_pos none, fun _ _ => ⟨rfl, rfl⟩⟩
  · refine ⟨_, (if_neg none).trans (absorb_eq tall fits zero damping j state.1 state.2), ?_⟩
    intro l before
    refine ⟨?_, ?_⟩
    · rw [get_filled, if_neg (by omega)]
    · refine (run_from tall row (j := j) (fun i before => ?_)).2 l before
      rw [get_dampingRow, if_neg (Fin.ne_of_lt before)]
      exact zero

omit fits zero in
/-- The diagonal entry of a row that has been absorbed is final. -/
theorem absorbRow_next (pivots : Vector (Fin n) n) (diag : Vector α n) (j : Fin n)
    {s : Scratch α m n k} {turned w : Vector α n} {triangle : Columns α m n}
    (run : (if diag.get (pivots.get j) == 0 then some s
      else s.absorb (diag.get (pivots.get j)) j) =
        some ⟨restored tall saved j triangle, saved, turned, direction, kept base w⟩) :
    s.absorbRow (indices pivots) diag j =
      some ⟨restored tall saved (j + 1) triangle, saved,
        overwriteAt turned j (triangle.lead tall j j), direction, kept base w⟩ := by
  have damping : read diag (pivots.get j) = some (diag.get (pivots.get j)) := read_val ..
  have entry : readEntry (restored tall saved j triangle) j j = some (triangle.lead tall j j) := by
    rw [readEntry_lead tall, Columns.lead, Columns.entry, get_restored tall saved _ (Nat.le_refl _)]
    rfl
  unfold absorbRow
  refine (bind_of_some (read_indices pivots j) _).trans ((bind_of_some damping _).trans ?_)
  refine (bind_of_some run _).trans ((bind_of_some entry _).trans ?_)
  have back : writeEntry (restored tall saved j triangle) j j (saved.get j) =
      some (restored tall saved (j + 1) triangle) := by
    rw [writeEntry_lead tall, get_restored tall saved _ (Nat.le_refl _), restored_succ]
  refine (bind_of_some (write_val turned j _) _).trans ?_
  exact (bind_of_some (read_val saved j) _).trans ((bind_of_some back _).trans rfl)

theorem absorbRow_all (s : Triangular α m n) (diag : Vector α n)
    (state : Columns α m n × Vector α n) :
    let absorbed := Fin.foldl n (fun state j => s.absorbDamping tall diag j state) state
    loop 0 n (absorbRow (indices s.pivots) diag)
        ⟨state.1, saved, sdiag, direction, kept base state.2⟩ =
      some ⟨absorbed.1.withDiagonal tall saved, saved,
        overwrite sdiag fun j => absorbed.1.lead tall j j, direction, kept base absorbed.2⟩ := by
  intro absorbed
  obtain ⟨_, run, turned, rfl, final⟩ := loop_related (absorbRow (indices s.pivots) diag)
    (fun j (state : Columns α m n × Vector α n) stored => ∃ turned : Vector α n,
      stored = ⟨restored tall saved j state.1, saved, turned, direction, kept base state.2⟩ ∧
      ∀ l : Fin n, l.val < j → turned.get l = state.1.lead tall l l)
    (f := fun state j => s.absorbDamping tall diag j state) (t := state)
    ⟨sdiag, by rw [restored_zero], fun l before => absurd before (Nat.not_lt_zero _)⟩
    (by
      rintro j state _ ⟨sdiag, rfl, final⟩
      obtain ⟨turned, run, same⟩ := absorb_or_skip tall fits zero s diag j state
      refine ⟨_, absorbRow_next tall s.pivots diag j run, _, rfl, fun l now => ?_⟩
      rw [get_overwriteAt]
      split
      next here => rw [here]
      next apart =>
        have before : l < j := by omega
        rw [(same l before).1, final l before, Columns.lead, Columns.lead, Columns.entry,
          Columns.entry, (same l before).2])
  rw [run, restored_all]
  -- All of the diagonal has come back by now, and what took its place has been kept.
  have diagonal : turned = overwrite sdiag fun j => absorbed.1.lead tall j j :=
    eq_of_get_eq fun l => by rw [final l l.isLt, get_overwrite]
  rw [diagonal]

omit zero in
theorem backSubstitute_eq (r : Columns α m n) (sdiag : Vector α n) {rank : Nat} (bound : rank ≤ n)
    (w : Vector α n) :
    backSubstitute r sdiag rank (kept base w) =
      some (kept base (Triangular.backSubstitute tall r sdiag rank w)) := by
  have cleared : fill rank n (fun _ _ => some 0) (kept base w) =
      some (kept base (overwriteWhere w (rank ≤ ·) fun _ => 0)) := by
    rw [fill_kept fits base w (Nat.le_refl n) (fun _ => 0) fun _ _ _ => rfl]
    refine congrArg (fun w => some (kept base w)) (eq_of_get_eq fun i => ?_)
    simp [get_filled]
  unfold backSubstitute
  refine (bind_of_some cleared _).trans (loopDown_lift bound (kept base) _ fun j w below => ?_)
  have product : (sum (j + 1) rank fun i => do
      return (← readEntry r i j) * (← read (kept base w) i)) =
      some (sumWhere (fun i : Fin n => j < i ∧ i < rank) fun i =>
        r.lead tall i j * w.get i) := by
    refine sum_eq bound (fun i => by omega) _ fun i _ => ?_
    rw [readEntry_lead tall, read_kept fits]
    rfl
  refine (bind_of_some product _).trans ((bind_of_some (read_kept fits base w j) _).trans ?_)
  refine (bind_of_some (read_val sdiag j) _).trans ?_
  rw [write_kept fits]

/-- The storage that a damped solve leaves. -/
def solved (direction : Vector α n) (base : Vector α k) (done : DampedSolution α m n) :
    Scratch α m n k :=
  ⟨done.r, done.x, done.sdiag, direction, kept base done.permuted⟩

theorem damped_eq (s : Triangular α m n) (diag x sdiag permuted direction : Vector α n)
    (base : Vector α k) :
    damped (indices s.pivots) diag s.qtb ⟨s.r, x, sdiag, direction, kept base permuted⟩ =
      some (solved direction base (s.damped tall diag x sdiag permuted)) := by
  let done := s.damped tall diag x sdiag permuted
  have rank : firstZero n (read done.sdiag) = some (firstIndex fun j => done.sdiag.get j == 0) :=
    firstZero_eq _ fun i => read_val ..
  unfold damped
  refine (bind_of_some (copyRow_all tall fits s.r s.qtb x sdiag direction permuted _) _).trans ?_
  rw [kept_kept]
  refine (bind_of_some (absorbRow_all tall fits zero s diag
    (Triangular.withLowerCopy tall s.r, overwrite permuted s.qtb.get)) _).trans ?_
  refine (bind_of_some rank _).trans ?_
  refine (bind_of_some (backSubstitute_eq tall fits _ _ (firstIndex_le _) _) _).trans ?_
  exact (bind_of_some (scatter_eq s.pivots _ _ fun j => read_kept fits ..) _).trans rfl

end Scratch

end LeastSquares.Checked
