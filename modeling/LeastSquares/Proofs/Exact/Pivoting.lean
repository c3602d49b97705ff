import Mathlib
import LeastSquares.Proofs.Factorization
import LeastSquares.Proofs.Pivots
import LeastSquares.Proofs.Exact.Reflection

/-!
# What pivoting achieves

Without errors of rounding the norms that a pivoted factorization keeps up are those of what is left
of the columns. Each diagonal entry of `R` therefore is, up to its sign, the largest norm that was
left, and outweighs every later column of `R` from its own row on.
-/
namespace LeastSquares

variable {m n : Nat}

/-- The sum of the squares of the entries from position `a` up to position `b`. -/
noncomputable def segmentSquare (v : Vector ℝ m) (a b : Nat) : ℝ :=
  ∑ i with a ≤ i.val ∧ i.val < b, v.get i ^ 2

theorem segmentSquare_nonneg (v : Vector ℝ m) (a b : Nat) : 0 ≤ segmentSquare v a b :=
  Finset.sum_nonneg fun _ _ => sq_nonneg _

theorem segmentSquare_congr {v w : Vector ℝ m} {a b : Nat}
    (same : ∀ i : Fin m, i < b → v.get i = w.get i) : segmentSquare v a b = segmentSquare w a b :=
  Finset.sum_congr rfl fun i inside => by rw [same i (Finset.mem_filter.mp inside).2.2]

theorem tailSquare_split (v : Vector ℝ m) {a b : Nat} (le : a ≤ b) :
    tailSquare v a = segmentSquare v a b + tailSquare v b := by
  have split : (Finset.univ.filter fun i : Fin m => a ≤ i.val) =
      (Finset.univ.filter fun i : Fin m => a ≤ i.val ∧ i.val < b) ∪
        Finset.univ.filter fun i : Fin m => b ≤ i.val := by
    ext i
    simp only [Finset.mem_filter, Finset.mem_univ, true_and, Finset.mem_union]
    omega
  have disjoint : Disjoint (Finset.univ.filter fun i : Fin m => a ≤ i.val ∧ i.val < b)
      (Finset.univ.filter fun i : Fin m => b ≤ i.val) := by
    rw [Finset.disjoint_filter]
    omega
  rw [tailSquare, split, Finset.sum_union disjoint]
  rfl

/-- A reflection preserves the lengths of longer tails as well. -/
theorem IsReflector.tailSquare_reflect_of_le {j : Fin m} {v : Vector ℝ m} (h : IsReflector j v)
    (w : Vector ℝ m) {a : Nat} (le : a ≤ j) : tailSquare (reflect j v w) a = tailSquare w a := by
  rw [tailSquare_split _ le, tailSquare_split w le, h.tailSquare_reflect,
    segmentSquare_congr fun i before => get_reflect_of_lt before v w]

namespace Factor

/-! ### One column -/

/-- The norm of what is left of a column is kept up exactly, whether it is reduced or computed
afresh. -/
theorem downdate_remaining (j : Fin m) (col : Vector ℝ m) (reference : ℝ) :
    (downdate j col (tailNorm col j) reference).1 = tailNorm col (j + 1) := by
  have split := tailSquare_succ col j
  have rest := tailSquare_nonneg col (j + 1)
  unfold downdate
  split
  next zero =>
    have zero : tailNorm col j = 0 := beq_iff_eq.mp zero
    rw [tailNorm_real, Real.sqrt_eq_zero (tailSquare_nonneg _ _)] at zero
    rw [tailNorm_real, tailNorm_real, zero, tailSquare_succ_of_zero zero]
  next nonzero =>
    have nonzero : tailNorm col j ≠ 0 := fun zero => nonzero (beq_iff_eq.mpr zero)
    have square : tailNorm col j ^ 2 = tailSquare col j := by
      rw [tailNorm_real, Real.sq_sqrt (tailSquare_nonneg _ _)]
    dsimp only
    split
    · rfl
    · -- What the entry leaves of the norm is the length of the other entries.
      have left : 1 - col.get j / tailNorm col j * (col.get j / tailNorm col j) =
          tailSquare col (j + 1) / tailNorm col j ^ 2 := by
        rw [← square] at split
        field_simp
        linarith
      change tailNorm col j * √(max (1 - _ * _) 0) = _
      rw [left, max_eq_left (by positivity), Real.sqrt_div' _ (by positivity),
        Real.sqrt_sq (by rw [tailNorm_real]; positivity), tailNorm_real col (j + 1)]
      field_simp

/-! ### Choosing a pivot -/

theorem pivotFrom_spec (j : Fin n) (remaining : Vector ℝ n) :
    j ≤ pivotFrom j remaining ∧
      ∀ k, j ≤ k → remaining.get k ≤ remaining.get (pivotFrom j remaining) := by
  have largest : ∀ k : Fin n, k < n → j ≤ k →
      remaining.get k ≤ remaining.get (pivotFrom j remaining) := by
    refine foldl_invariant (fun i best => ∀ k : Fin n, k < i → j ≤ k →
      remaining.get k ≤ remaining.get best) (fun k none => absurd none (by omega)) ?_
    intro i best largest k before from_j
    split
    next better =>
      rcases Nat.lt_succ_iff_lt_or_eq.mp before with earlier | now
      · exact (largest k earlier from_j).trans (le_of_lt better.2)
      · rw [Fin.ext now]
    next worse =>
      rcases Nat.lt_succ_iff_lt_or_eq.mp before with earlier | now
      · exact largest k earlier from_j
      · obtain rfl : k = i := Fin.ext now
        exact not_lt.mp fun larger => worse ⟨from_j, larger⟩
  exact ⟨le_pivotFrom j remaining, fun k => largest k k.isLt⟩

/-! ### One step -/

/-- A column whose remaining entries are all zero is left as it is. -/
theorem eliminate_of_zero (pivot : Bool) (row : Fin m) (col : Fin n) {f : Factor ℝ m n}
    (zero : tailSquare (f.packed.get col) row = 0) :
    f.eliminate pivot row col = { f with rdiag := overwriteAt f.rdiag col 0 } := by
  have size : tailNorm (f.packed.get col) row = 0 := by rw [tailNorm_real, zero, Real.sqrt_zero]
  rw [eliminate_of_none (beq_iff_eq.mpr size), size, neg_zero]

/-- `g` comes from `f` by the reflection that `v` is stored for, which sends what is left of the
column at position `col` to its first entry. -/
structure EliminatedBy (pivot : Bool) (row : Fin m) (col : Fin n) (v : Vector ℝ m)
    (f g : Factor ℝ m n) : Prop where
  reflector : IsReflector row v
  above : ∀ i < row, v.get i = (f.packed.get col).get i
  packed : ∀ c, g.packed.get c = if c = col then v
    else if col < c then reflect row v (f.packed.get c) else f.packed.get c
  turned : ∀ i, (reflect row v (f.packed.get col)).get i =
    if i < row then (f.packed.get col).get i else if i = row then g.rdiag.get col else 0
  diagonal : g.rdiag.get col ^ 2 = tailSquare (f.packed.get col) row
  nonzero : g.rdiag.get col ≠ 0
  earlier : ∀ c < col, g.rdiag.get c = f.rdiag.get c
  later : pivot → ∀ c > col, g.rdiag.get c =
    (downdate row (g.packed.get c) (f.rdiag.get c) (f.reference.get c)).1

/-- The length of a column takes the sign of an entry of it, so that their quotient is not
negative. -/
theorem signed_length {entry length : ℝ} (positive : 0 < length) :
    (if entry < 0 then -length else length) ^ 2 = length ^ 2 ∧
      0 ≤ entry / if entry < 0 then -length else length := by
  split
  next negative =>
    exact ⟨neg_sq _, div_nonneg_of_nonpos (le_of_lt negative) (neg_nonpos.mpr (le_of_lt positive))⟩
  next nonneg => exact ⟨rfl, div_nonneg (not_lt.mp nonneg) (le_of_lt positive)⟩

theorem eliminate_of_nonzero (pivot : Bool) (row : Fin m) (col : Fin n) {f : Factor ℝ m n}
    (nonzero : tailSquare (f.packed.get col) row ≠ 0) :
    ∃ v, EliminatedBy pivot row col v f (f.eliminate pivot row col) := by
  set current := f.packed.get col with current_eq
  have size : tailNorm current row ^ 2 = tailSquare current row := by
    rw [tailNorm_real, Real.sq_sqrt (tailSquare_nonneg _ _)]
  have positive : 0 < tailNorm current row := by
    rw [tailNorm_real]
    exact Real.sqrt_pos.mpr (lt_of_le_of_ne (tailSquare_nonneg _ _) nonzero.symm)
  obtain ⟨square, sign⟩ := @signed_length (current.get row) _ positive
  change f.signedLength row col ^ 2 = _ at square
  change 0 ≤ _ / f.signedLength row col at sign
  rw [size] at square
  have length_ne : f.signedLength row col ≠ 0 := fun zero =>
    nonzero (by rw [← square, zero]; norm_num)
  have some : ¬ (tailNorm (f.packed.get col) row == 0) := fun zero =>
    absurd (beq_iff_eq.mp zero) (ne_of_gt positive)
  refine ⟨f.columnReflector row col, ?_⟩
  rw [eliminate_of_size some]
  exact {
    reflector := isReflector_reflector square length_ne sign
    above := fun i before => by
      rw [columnReflector, get_reflector, if_neg (ne_of_lt before), if_neg (not_le.mpr before)]
    packed := fun c => get_overwrite ..
    turned := fun i => by
      rw [get_overwriteAt, if_pos rfl]
      exact reflect_reflector square length_ne sign i
    diagonal := by rw [get_overwriteAt, if_pos rfl, neg_sq, square]
    nonzero := by rwa [get_overwriteAt, if_pos rfl, neg_ne_zero]
    earlier := fun c before => by
      rw [get_overwriteAt, if_neg (ne_of_gt before), get_map, downdated, get_overwrite,
        if_neg fun after => not_lt.mpr (le_of_lt before) after.2]
    later := fun pivoting c after => by
      rw [get_overwriteAt, if_neg (ne_of_lt after), get_map, downdated, get_overwrite,
        if_pos ⟨pivoting, after⟩] }

/-! ### Invariants -/

/-- Each diagonal entry before position `j` outweighs what every later column has from its row on:
entries of `R` if the column is finished too, or else what is left of it. -/
structure Dominated (f : Factor ℝ m n) (j : Nat) : Prop where
  finished : ∀ k c : Fin n, k < c → c.val < j →
    segmentSquare (f.packed.get c) k c + f.rdiag.get c ^ 2 ≤ f.rdiag.get k ^ 2
  pending : ∀ k c : Fin n, k.val < j → j ≤ c.val →
    tailSquare (f.packed.get c) k ≤ f.rdiag.get k ^ 2

/-- Besides, the norms kept up are those of what is left of the columns. -/
structure Reduced (f : Factor ℝ m n) (j : Nat) : Prop extends f.Dominated j where
  remaining : ∀ c : Fin n, j ≤ c.val → f.rdiag.get c = tailNorm (f.packed.get c) j

/-- The column at position `col` is the one of which most is left. -/
structure Chosen (f : Factor ℝ m n) (col : Fin n) : Prop extends f.Dominated col where
  remaining : ∀ c > col, f.rdiag.get c = tailNorm (f.packed.get c) col
  largest : ∀ c > col, tailSquare (f.packed.get c) col ≤ tailSquare (f.packed.get col) col

theorem prepare_reduced (pivot : Bool) (f : Factor ℝ m n) : (f.prepare pivot).Reduced 0 where
  finished _ _ _ before := absurd before (by omega)
  pending _ _ before := absurd before (by omega)
  remaining c _ := get_overwrite ..

theorem tailSquare_eq_sq {v : Vector ℝ m} {j : Nat} {x : ℝ} (h : x = tailNorm v j) :
    tailSquare v j = x ^ 2 := by
  rw [h, tailNorm_real, Real.sq_sqrt (tailSquare_nonneg _ _)]

theorem Reduced.exchange {f : Factor ℝ m n} {col : Fin n} (h : f.Reduced col) :
    (f.exchange col (pivotFrom col f.rdiag)).Chosen col := by
  obtain ⟨inside, largest⟩ := pivotFrom_spec col f.rdiag
  set best := pivotFrom col f.rdiag
  -- Positions before `col` are not touched, and none is moved before it.
  have before {c : Fin n} (lt : c < col) : c ≠ col ∧ c ≠ best :=
    ⟨ne_of_lt lt, ne_of_lt (lt_of_lt_of_le lt inside)⟩
  exact {
    finished := fun k c lt done => by
      have done : c < col := done
      rw [get_exchange_packed, get_exchange_rdiag, get_exchange_rdiag, if_neg (before done).1,
        if_neg (before done).2, if_neg (before (lt.trans done)).2]
      exact h.finished k c lt done
    pending := fun k c done later => by
      have done : k < col := done
      rw [get_exchange_packed, get_exchange_rdiag, if_neg (before done).2]
      refine h.pending k _ done ?_
      split
      · exact inside
      · split
        · exact le_rfl
        · exact later
    remaining := fun c later => by
      rw [get_exchange_packed, get_exchange_rdiag, if_neg (ne_of_gt later)]
      refine h.remaining _ ?_
      split
      · exact le_rfl
      · exact le_of_lt later
    largest := fun c later => by
      rw [get_exchange_packed, get_exchange_packed, if_pos rfl, if_neg (ne_of_gt later)]
      have from_col : col ≤ if c = best then col else c := by
        split
        · exact le_rfl
        · exact le_of_lt later
      have nonneg : 0 ≤ f.rdiag.get (if c = best then col else c) := by
        rw [h.remaining _ from_col, tailNorm_real]
        exact Real.sqrt_nonneg _
      rw [tailSquare_eq_sq (h.remaining _ from_col), tailSquare_eq_sq (h.remaining _ inside)]
      exact pow_le_pow_left₀ nonneg (largest _ from_col) 2 }

/-- If nothing is left of the column of which most was left, then nothing is left of any. -/
theorem Chosen.eliminate_of_zero {f : Factor ℝ m n} {row : Fin m} {col : Fin n}
    (same : row.val = col) (h : f.Chosen col) (zero : tailSquare (f.packed.get col) row = 0) :
    (f.eliminate true row col).Reduced (col + 1) := by
  -- The largest norm left is zero, and so are all others.
  have none (c : Fin n) (later : col < c) : tailSquare (f.packed.get c) col = 0 := by
    have largest := h.largest c later
    rw [← same] at largest ⊢
    exact le_antisymm (largest.trans_eq zero) (tailSquare_nonneg _ _)
  rw [Factor.eliminate_of_zero true row col zero]
  rw [same] at zero
  have rdiag (c : Fin n) : (overwriteAt f.rdiag col 0).get c =
      if col = c then 0 else f.rdiag.get c := get_overwriteAt ..
  exact {
    finished := fun k c lt done => by
      dsimp only
      rw [rdiag c, rdiag k, if_neg (show col ≠ k by omega)]
      rcases Nat.lt_succ_iff_lt_or_eq.mp done with earlier | now
      · rw [if_neg (by omega)]
        exact h.finished k c lt earlier
      · obtain rfl : c = col := Fin.ext now
        have whole := tailSquare_split (f.packed.get c) (Nat.le_of_lt lt)
        have pending := h.pending k c lt le_rfl
        rw [if_pos rfl]
        linarith
    pending := fun k c done later => by
      dsimp only
      rw [rdiag]
      rcases Nat.lt_succ_iff_lt_or_eq.mp done with earlier | now
      · rw [if_neg (by omega)]
        exact h.pending k c earlier (by omega)
      · obtain rfl : k = col := Fin.ext now
        rw [if_pos rfl, none c later]
        norm_num
    remaining := fun c later => by
      dsimp only
      have left : tailSquare (f.packed.get c) row = 0 := same ▸ none c later
      have gone := tailSquare_succ_of_zero left
      rw [same] at left gone
      rw [rdiag, if_neg (by omega), h.remaining c later, tailNorm_real, tailNorm_real, left, gone] }

/-- A reflection sends what is left of the chosen column to its diagonal entry, and keeps the
lengths of what is left of the others. -/
theorem EliminatedBy.reduced {f g : Factor ℝ m n} {row : Fin m} {col : Fin n} {v : Vector ℝ m}
    (made : EliminatedBy true row col v f g) (same : row.val = col) (h : f.Chosen col) :
    g.Reduced (col + 1) := by
  have earlier {c : Fin n} (lt : c < col) : g.packed.get c = f.packed.get c := by
    rw [made.packed, if_neg (ne_of_lt lt), if_neg (not_lt_of_gt lt)]
  have later {c : Fin n} (lt : col < c) : g.packed.get c = reflect row v (f.packed.get c) := by
    rw [made.packed, if_neg (ne_of_gt lt), if_pos lt]
  exact {
    finished := fun k c lt done => by
      rcases Nat.lt_succ_iff_lt_or_eq.mp done with before | now
      · have before : c < col := before
        rw [earlier before, made.earlier c before, made.earlier k (lt.trans before)]
        exact h.finished k c lt before
      · obtain rfl : c = col := Fin.ext now
        have whole := tailSquare_split (f.packed.get c) (Nat.le_of_lt lt)
        have above : segmentSquare v k c = segmentSquare (f.packed.get c) k c :=
          segmentSquare_congr fun i before => made.above i (Fin.lt_def.mpr (same ▸ before))
        rw [made.packed, if_pos rfl, above, made.diagonal, made.earlier k lt, same, ← whole]
        exact h.pending k c lt le_rfl
    pending := fun k c done after => by
      have after : col < c := after
      rcases Nat.lt_succ_iff_lt_or_eq.mp done with before | now
      · have before : k < col := before
        rw [later after, made.earlier k before,
          made.reflector.tailSquare_reflect_of_le _ (by omega)]
        exact h.pending k c before (le_of_lt after)
      · obtain rfl : k = col := Fin.ext now
        rw [later after, made.diagonal, ← same, made.reflector.tailSquare_reflect, same]
        exact h.largest c after
    remaining := fun c after => by
      have after : col < c := after
      have kept : f.rdiag.get c = tailNorm (g.packed.get c) row := by
        rw [h.remaining c after, later after, tailNorm_real, tailNorm_real,
          made.reflector.tailSquare_reflect, same]
      rw [made.later rfl c after, kept, downdate_remaining, same] }

theorem Chosen.eliminate {f : Factor ℝ m n} {row : Fin m} {col : Fin n} (same : row.val = col)
    (h : f.Chosen col) : (f.eliminate true row col).Reduced (col + 1) := by
  by_cases zero : tailSquare (f.packed.get col) row = 0
  · exact h.eliminate_of_zero same zero
  · obtain ⟨v, made⟩ := Factor.eliminate_of_nonzero true row col zero
    exact made.reduced same h

/-! ### The whole factorization -/

/-- Before each step, and after the last one, the norms of the remaining columns are exact. -/
theorem after_reduced (f : Factor ℝ m n) {k : Nat} (inside : k ≤ min m n) :
    (f.after true k).Reduced k :=
  after_invariant (fun j done => Reduced done j) (prepare_reduced true f)
    (fun _ _ now => Chosen.eliminate rfl now.exchange) inside

theorem compute_reduced (f : Factor ℝ m n) : (f.compute true).Reduced (min m n) := by
  rw [compute_eq_after]
  exact f.after_reduced (Nat.le_refl _)

end Factor

/-! ### Rank -/

/-- A zero on the diagonal of the triangle means that nothing is left of it from there on. -/
def Columns.RankRevealing (tall : n ≤ m) (r : Columns ℝ m n) : Prop :=
  ∀ k i j : Fin n, r.lead tall k k = 0 → k ≤ i → i ≤ j → r.lead tall i j = 0

theorem Columns.RankRevealing.of_same {tall : n ≤ m} {a b : Columns ℝ m n}
    (h : a.RankRevealing tall) (same : a.SameUpper tall b) : b.RankRevealing tall := by
  intro k i j zero from_k upper
  rw [same.diagonal] at zero
  rw [same.lead_eq upper]
  exact h k i j zero from_k upper

/-- Pivoting reveals the rank. -/
theorem Factor.square_rankRevealing (tall : n ≤ m) (f : Factor ℝ m n) :
    ((f.compute true).square tall).RankRevealing tall := by
  have reduced := f.compute_reduced
  rw [Nat.min_eq_right tall] at reduced
  set g := f.compute true
  intro k i j zero from_k upper
  simp only [Factor.square, Columns.lead_withDiagonal, if_true] at zero ⊢
  -- Column `j` cannot outweigh a diagonal entry that is zero.
  have nothing {c : Fin n} (later : k < c) :
      segmentSquare (g.packed.get c) k c = 0 ∧ g.rdiag.get c ^ 2 = 0 := by
    have dominated := reduced.finished k c later c.isLt
    have segment := segmentSquare_nonneg (g.packed.get c) k c
    have square := sq_nonneg (g.rdiag.get c)
    rw [zero] at dominated
    constructor <;> linarith
  split
  next same =>
    subst same
    rcases eq_or_lt_of_le from_k with rfl | later
    · exact zero
    · exact pow_eq_zero_iff two_ne_zero |>.mp (nothing later).2
  next other =>
    have above : i < j := lt_of_le_of_ne upper other
    have segment := (nothing (lt_of_le_of_lt from_k above)).1
    rw [segmentSquare, Finset.sum_eq_zero_iff_of_nonneg fun _ _ => sq_nonneg _] at segment
    have entry := segment (i.castLE tall) (by simp; omega)
    exact pow_eq_zero_iff two_ne_zero |>.mp entry

end LeastSquares
