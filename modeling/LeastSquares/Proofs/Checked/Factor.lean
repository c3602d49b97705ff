import Mathlib.Data.List.FinRange
import LeastSquares.Checked.Factor
import LeastSquares.Proofs.Checked.Loops
import LeastSquares.Proofs.Pivots
import LeastSquares.Proofs.Redivision

/-!
# The factorization stays in bounds

On checked storage the factorization with pivoting never meets an index out of bounds, and leaves
what the factorization itself does. The pivots it ends with are a permutation, whatever the norms
compare like.
-/
namespace LeastSquares.Checked

variable {α : Type} {m n : Nat}

namespace Factor

/-- A factorization with its pivots as plain numbers. -/
def plain (f : LeastSquares.Factor α m n) : Factor α m n :=
  ⟨f.packed, indices f.pivots, f.rdiag, f.norms, f.reference⟩

/-! ### Exchanges -/

/-- The matrix when the first `i` rows have had two of their entries exchanged. -/
def exchanged (j k : Fin n) (i : Nat) (a : Columns α m n) : Columns α m n :=
  overwriteAt (overwriteAt a j (filled 0 i (a.get k).get (a.get j))) k
    (filled 0 i (a.get j).get (a.get k))

theorem exchangeColumns_eq {j k : Fin n} (apart : j ≠ k) (a : Columns α m n) :
    exchangeColumns j k a = some (interchange a j k) := by
  have start : exchanged j k 0 a = a := by
    apply eq_of_get_eq
    intro l
    simp only [exchanged, filled_self, get_overwriteAt]
    grind
  have done : exchanged j k m a = interchange a j k := by
    apply eq_of_get_eq
    intro l
    simp only [exchanged, filled_all, overwrite_get, get_overwriteAt, get_interchange]
    grind
  refine (loop_eq (Nat.le_refl m) (fun i => exchanged j k i a) (Nat.zero_le m) start ?_).trans
    (congrArg some done)
  intro i _ _
  have next (g : Fin m → α) (v : Vector α m) := overwriteAt_filled (Nat.zero_le i) g v
  have x : (exchanged j k i a).entry i j = a.entry i j := by
    simp [exchanged, Columns.entry, apart.symm]
  have y : (exchanged j k i a).entry i k = a.entry i k := by
    simp [exchanged, Columns.entry]
  simp only [readEntry_val, writeEntry_val, Option.bind_eq_bind, Option.bind_some, x, y]
  refine congrArg some (eq_of_get_eq fun l => ?_)
  simp only [exchanged, ← next, get_overwriteAt, Columns.entry]
  grind

/-- A position is exchanged with itself by leaving all as it is. -/
theorem exchange_self (j : Fin n) (f : LeastSquares.Factor α m n) : f.exchange j j = f := by
  have same {β : Type} (v : Vector β n) : interchange v j j = v :=
    eq_of_get_eq fun l => by grind [get_interchange]
  simp only [LeastSquares.Factor.exchange, same, overwriteAt_get]

theorem exchange_eq (j k : Fin n) (f : LeastSquares.Factor α m n) :
    (plain f).exchange j k = some (plain (f.exchange j k)) := by
  unfold exchange
  split
  next same =>
    obtain rfl : k = j := Fin.ext same
    rw [exchange_self]
  next apart =>
    have pivots : interchange (indices f.pivots) j k = indices (interchange f.pivots j k) :=
      eq_of_get_eq fun l => by simp [get_interchange, apply_ite Fin.val]
    have columns := exchangeColumns_eq (fun same : j = k => apart (same ▸ rfl)) f.packed
    simp [plain, LeastSquares.Factor.exchange, columns, pivots]

variable [Scalar α]

/-! ### Norms and the choice of pivots -/

theorem prepare_eq (pivot : Bool) (f : Factor α m n) :
    f.prepare pivot = some
      { packed := f.packed
        pivots := if pivot then overwrite f.pivots fun j => j.val else f.pivots
        rdiag := overwrite f.rdiag fun j => norm (f.packed.get j).toList
        norms := overwrite f.norms fun j => norm (f.packed.get j).toList
        reference := overwrite f.reference fun j => norm (f.packed.get j).toList } := by
  let size (j : Fin n) : α := norm (f.packed.get j).toList
  let taken (j : Nat) : Factor α m n :=
    { packed := f.packed
      pivots := if pivot then filled 0 j (fun j => j.val) f.pivots else f.pivots
      rdiag := filled 0 j size f.rdiag
      norms := filled 0 j size f.norms
      reference := filled 0 j size f.reference }
  have start : taken 0 = f := by cases pivot <;> simp [taken, filled_self]
  refine (loop_eq (Nat.le_refl n) taken (Nat.zero_le n) start ?_).trans (congrArg some ?_)
  · intro j _ _
    have next {β : Type} (g : Fin n → β) (v : Vector β n) := overwriteAt_filled (Nat.zero_le j) g v
    cases pivot <;> simp [taken, ← next, size]
  · cases pivot <;> simp [taken, filled_all, size]

theorem pivotFrom_eq (j : Fin n) (remaining : Vector α n) :
    pivotFrom j remaining = some (LeastSquares.Factor.pivotFrom j remaining).val := by
  refine (loop_lift (Nat.le_refl n) Fin.val j
    (f := fun best k => if remaining.get k > remaining.get best then k else best) ?_).trans
    (congrArg (fun f => some (Fin.foldl n f j).val) ?_)
  · intro k best _ _
    simp [apply_ite Fin.val]
  funext best k
  by_cases from_j : j ≤ k
  · rw [if_pos ⟨from_j, k.isLt⟩]
    simp only [from_j, true_and]
  · rw [if_neg fun range => from_j range.1, if_neg fun range => from_j range.1]

/-! ### Reflections -/

theorem downdate_eq (row : Fin m) (k : Fin n) (f : Factor α m n) :
    f.downdate row k =
      let d := LeastSquares.Factor.downdate row (f.packed.get k) (f.rdiag.get k) (f.reference.get k)
      some { f with
        rdiag := overwriteAt f.rdiag k d.1
        reference := overwriteAt f.reference k d.2 } := by
  unfold downdate LeastSquares.Factor.downdate
  simp only [read_val, readEntry_val, write_val, slice_drop _ row.isLt, Columns.entry,
    Option.bind_eq_bind, Option.bind_some]
  split
  next => simp only [overwriteAt_get, Option.pure_def]
  next =>
    split
    next => rfl
    next =>
      rw [overwriteAt_get]
      rfl

section

variable {j : Nat} (row : j < m) (col : j < n)

theorem reflector_eq (length : α) (a : Columns α m n) :
    reflector length j a = some (overwriteAt a ⟨j, col⟩
      (LeastSquares.reflector ⟨j, row⟩ length (a.get ⟨j, col⟩))) := by
  let current := a.get ⟨j, col⟩
  have quotients : fillColumn j m j (fun i a => do return (← readEntry a i j) / length) a =
      some (overwriteAt a ⟨j, col⟩ (filled j m (fun i => current.get i / length) current)) := by
    refine fillColumn_eq (Nat.le_refl m) ⟨j, col⟩ _ a fun i _ _ => ?_
    simp [readEntry_of_lt _ i.isLt col, entry_overwriteAt, current]
  have overwritten : filled j m (fun i => current.get i / length) current =
      overwriteWhere current (⟨j, row⟩ ≤ ·) fun i => current.get i / length :=
    filled_eq (le_iff_range ⟨j, row⟩) _ _
  rw [reflector, quotients, overwritten]
  simp [readEntry_of_lt _ row col, writeEntry_of_lt _ row col, entry_overwriteAt,
    overwriteAt_overwriteAt, LeastSquares.reflector, current]

theorem reflect_eq {k : Fin n} (apart : ⟨j, col⟩ ≠ k) (a : Columns α m n) :
    reflect j k a = some (overwriteAt a k
      (LeastSquares.reflect ⟨j, row⟩ (a.get ⟨j, col⟩) (a.get k))) := by
  let v := a.get ⟨j, col⟩
  let w := a.get k
  have product : (sum j m fun i => do return (← readEntry a i j) * (← readEntry a i k)) =
      some (sumWhere (⟨j, row⟩ ≤ ·) fun i => v.get i * w.get i) := by
    refine sum_eq (Nat.le_refl m) (le_iff_range ⟨j, row⟩) _ fun i _ => ?_
    simp [readEntry_of_lt _ i.isLt col, Columns.entry, v, w]
  have column (t : α) : fillColumn j m k (fun i a => do
      return (← readEntry a i k) - t * (← readEntry a i j)) a =
      some (overwriteAt a k (filled j m (fun i => w.get i - t * v.get i) w)) := by
    refine fillColumn_eq (Nat.le_refl m) k _ a fun i _ _ => ?_
    simp [readEntry_of_lt _ i.isLt col, apart.symm, Columns.entry, v, w]
  have overwritten (t : α) : filled j m (fun i => w.get i - t * v.get i) w =
      overwriteWhere w (⟨j, row⟩ ≤ ·) fun i => w.get i - t * v.get i :=
    filled_eq (le_iff_range ⟨j, row⟩) _ _
  refine (bind_of_some product _).trans ((bind_of_some (readEntry_of_lt a row col) _).trans ?_)
  rw [column, overwritten]
  rfl

/-- What a reflection leaves of the norms of a column. -/
def reduced (pivot : Bool) (row : Fin m) (col : Vector α m) (remaining reference : α) : α × α :=
  if pivot then LeastSquares.Factor.downdate row col remaining reference
  else (remaining, reference)

theorem reflectColumn_eq (pivot : Bool) {k : Fin n} (apart : ⟨j, col⟩ ≠ k) (f : Factor α m n) :
    f.reflectColumn pivot j k =
      let c := LeastSquares.reflect ⟨j, row⟩ (f.packed.get ⟨j, col⟩) (f.packed.get k)
      let d := reduced pivot ⟨j, row⟩ c (f.rdiag.get k) (f.reference.get k)
      some { f with
        packed := overwriteAt f.packed k c
        rdiag := overwriteAt f.rdiag k d.1
        reference := overwriteAt f.reference k d.2 } := by
  rw [reflectColumn, reflect_eq row col apart]
  cases pivot with
  | false => simp [reduced, overwriteAt_get]
  | true => simp [reduced, downdate_eq ⟨j, row⟩]

/-- The factorization when the columns after `j` have been reflected up to column `k`. -/
def treated (pivot : Bool) (k : Nat) (f : LeastSquares.Factor α m n) : Factor α m n :=
  let v := f.columnReflector ⟨j, row⟩ ⟨j, col⟩
  let turned (k : Fin n) := LeastSquares.reflect ⟨j, row⟩ v (f.packed.get k)
  let left (k : Fin n) := reduced pivot ⟨j, row⟩ (turned k) (f.rdiag.get k) (f.reference.get k)
  { packed := filled (j + 1) k turned (overwriteAt f.packed ⟨j, col⟩ v)
    pivots := indices f.pivots
    rdiag := filled (j + 1) k (fun k => (left k).1) f.rdiag
    norms := f.norms
    reference := filled (j + 1) k (fun k => (left k).2) f.reference }

theorem treated_first (pivot : Bool) (f : LeastSquares.Factor α m n) :
    treated row col pivot (j + 1) f =
      { plain f with
        packed := overwriteAt f.packed ⟨j, col⟩ (f.columnReflector ⟨j, row⟩ ⟨j, col⟩) } := by
  simp [treated, filled_self, plain]

theorem treated_next (pivot : Bool) (f : LeastSquares.Factor α m n) {k : Fin n}
    (after : j + 1 ≤ k.val) :
    reflectColumn pivot j k (treated row col pivot k f) =
      some (treated row col pivot (k + 1) f) := by
  have apart : ⟨j, col⟩ ≠ k := fun same => absurd (congrArg Fin.val same) (by simp; omega)
  have next {β : Type} (g : Fin n → β) (v : Vector β n) := overwriteAt_filled after g v
  have reflector : (treated row col pivot k f).packed.get ⟨j, col⟩ =
      f.columnReflector ⟨j, row⟩ ⟨j, col⟩ := by
    simp [treated, get_filled]
  rw [reflectColumn_eq row col pivot apart, reflector]
  simp [treated, ← next, apart]

theorem treated_last (pivot : Bool) {f : LeastSquares.Factor α m n}
    (some : ¬ (tailNorm (f.packed.get ⟨j, col⟩) j == 0)) :
    { treated row col pivot n f with
      rdiag := overwriteAt (treated row col pivot n f).rdiag ⟨j, col⟩
        (-f.signedLength ⟨j, row⟩ ⟨j, col⟩) } =
      plain (f.eliminate pivot ⟨j, row⟩ ⟨j, col⟩) := by
  have packed : (treated row col pivot n f).packed = f.reflected ⟨j, row⟩ ⟨j, col⟩ := by
    apply eq_of_get_eq
    intro k
    simp only [treated, get_filled, get_overwriteAt, LeastSquares.Factor.reflected, get_overwrite,
      Fin.lt_def, Fin.ext_iff]
    grind
  have norms (k : Fin n) : ((treated row col pivot n f).rdiag.get k,
      (treated row col pivot n f).reference.get k) =
      (f.downdated pivot ⟨j, row⟩ ⟨j, col⟩ (f.reflected ⟨j, row⟩ ⟨j, col⟩)).get k := by
    rw [← packed]
    simp only [treated, get_filled, LeastSquares.Factor.downdated, get_overwrite, reduced,
      Fin.lt_def]
    grind
  have rdiag : (treated row col pivot n f).rdiag =
      (f.downdated pivot ⟨j, row⟩ ⟨j, col⟩ (f.reflected ⟨j, row⟩ ⟨j, col⟩)).map (·.1) :=
    eq_of_get_eq fun k => by rw [get_map, ← norms k]
  have reference : (treated row col pivot n f).reference =
      (f.downdated pivot ⟨j, row⟩ ⟨j, col⟩ (f.reflected ⟨j, row⟩ ⟨j, col⟩)).map (·.2) :=
    eq_of_get_eq fun k => by rw [get_map, ← norms k]
  rw [LeastSquares.Factor.eliminate_of_size some]
  simp only [plain, packed, rdiag, reference]
  rfl

theorem eliminate_eq (pivot : Bool) (f : LeastSquares.Factor α m n) :
    (plain f).eliminate pivot j = some (plain (f.eliminate pivot ⟨j, row⟩ ⟨j, col⟩)) := by
  have current : read (plain f).packed j = some (f.packed.get ⟨j, col⟩) := read_of_lt _ col
  have rest : slice (f.packed.get ⟨j, col⟩) j m = some ((f.packed.get ⟨j, col⟩).toList.drop j) :=
    slice_drop _ (Nat.le_of_lt row)
  unfold eliminate
  refine (bind_of_some current _).trans ((bind_of_some rest _).trans ?_)
  by_cases zero : (tailNorm (f.packed.get ⟨j, col⟩) j == 0) = true
  · rw [LeastSquares.Factor.eliminate_of_none zero]
    refine (if_pos zero).trans ?_
    rw [write_of_lt _ col]
    rfl
  · refine (if_neg zero).trans ?_
    have entry : readEntry (plain f).packed j j = some ((f.packed.get ⟨j, col⟩).get ⟨j, row⟩) :=
      readEntry_of_lt _ row col
    have run : loop (j + 1) n (reflectColumn pivot j) (treated row col pivot (j + 1) f) =
        some (treated row col pivot n f) :=
      loop_eq (Nat.le_refl n) (fun k => treated row col pivot k f) col rfl fun k after _ =>
        treated_next row col pivot f after
    refine (bind_of_some entry _).trans ((bind_of_some (reflector_eq row col _ _) _).trans ?_)
    rw [treated_first] at run
    refine (bind_of_some run _).trans ((bind_of_some (write_of_lt _ col _) _).trans ?_)
    exact congrArg Option.some (treated_last row col pivot zero)

end

theorem step_eq (pivot : Bool) (j : Fin (min m n)) (f : LeastSquares.Factor α m n) :
    step pivot j (plain f) = some (plain (f.step pivot (j.castLE (Nat.min_le_left m n))
      (j.castLE (Nat.min_le_right m n)))) := by
  have row : j.val < m := Nat.lt_of_lt_of_le j.isLt (Nat.min_le_left m n)
  have col : j.val < n := Nat.lt_of_lt_of_le j.isLt (Nat.min_le_right m n)
  have pivotal : pivotFrom j f.rdiag =
      some (LeastSquares.Factor.pivotFrom ⟨j, col⟩ f.rdiag).val := pivotFrom_eq ⟨j, col⟩ f.rdiag
  have exchange (k : Fin n) : (plain f).exchange j k = some (plain (f.exchange ⟨j, col⟩ k)) :=
    exchange_eq ⟨j, col⟩ k f
  cases pivot with
  | false => exact eliminate_eq row col false f
  | true =>
    have now : (plain f).rdiag = f.rdiag := rfl
    simp only [step, now, pivotal, exchange, if_true, Option.bind_eq_bind, Option.bind_some]
    exact eliminate_eq row col true _

theorem compute_eq (pivot : Bool) (raw : Vector Nat n) (f : LeastSquares.Factor α m n)
    (same : pivot = false → raw = indices f.pivots) :
    compute pivot { plain f with pivots := raw } = some (plain (f.compute pivot)) := by
  have prepared : ({ plain f with pivots := raw } : Factor α m n).prepare pivot =
      some (plain (f.prepare pivot)) := by
    rw [prepare_eq]
    cases pivot with
    | false => simp [plain, LeastSquares.Factor.prepare, same]
    | true =>
      have identity : overwrite raw (fun j => j.val) = indices (overwrite f.pivots id) :=
        eq_of_get_eq fun j => by simp
      simp [plain, LeastSquares.Factor.prepare, identity]
  rw [compute, prepared]
  exact loop_lift_all plain (f.prepare pivot) fun j f => step_eq pivot j f

theorem indices_perm {pivots : Vector (Fin n) n} (bijective : Function.Bijective pivots.get) :
    (indices pivots).toList.Perm (List.range n) := by
  have listed : (indices pivots).toList =
      List.ofFn (Fin.val ∘ Equiv.ofBijective pivots.get bijective) := by
    apply List.ext_getElem (by simp)
    intro i _ _
    simp [indices, get_eq]
  have range : List.range n = List.ofFn (Fin.val : Fin n → Nat) := by
    apply List.ext_getElem <;> simp
  rw [listed, range]
  exact Equiv.Perm.ofFn_comp_perm _ _

/-- Whatever the buffers hold and however the norms compare, a factorization with pivoting ends, and
its pivots are a permutation. -/
theorem compute_perm (f : Factor α m n) :
    ∃ g, f.compute true = some g ∧ g.pivots.toList.Perm (List.range n) := by
  -- The pivots a factorization is given are overwritten, whatever they are.
  let typed : LeastSquares.Factor α m n :=
    ⟨f.packed, Vector.ofFn id, f.rdiag, f.norms, f.reference⟩
  refine ⟨_, compute_eq true f.pivots typed (by simp), ?_⟩
  exact indices_perm typed.compute_pivots_bijective

end Factor

end LeastSquares.Checked
