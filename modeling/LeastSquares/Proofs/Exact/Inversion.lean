import Mathlib
import LeastSquares.Proofs.Relabeling
import LeastSquares.Proofs.Exact.Orthogonality

/-!
# Inverting the triangle

Without errors of rounding the leading block of full rank is inverted column by column in the place
of `R`, and then multiplied with its transpose in the same place. What is left is the inverse of
`Rᵀ R` on that block and zero elsewhere.
-/
namespace LeastSquares

open Matrix

/-- A sum over the indices up to `j` ends with the summand of `j`. -/
theorem sum_upTo {n : Nat} (f : Fin n → ℝ) (j : Fin n) :
    ∑ i with i.val < j.val + 1, f i = ∑ i with i.val < j.val, f i + f j := by
  have split : (Finset.univ.filter fun i : Fin n => i.val < j.val + 1) =
      insert j (Finset.univ.filter fun i : Fin n => i.val < j.val) := by
    ext i
    simp only [Finset.mem_filter, Finset.mem_univ, true_and, Finset.mem_insert, Fin.ext_iff]
    omega
  rw [split, Finset.sum_insert (by simp), add_comm]

/-- The leading `k × k` block. -/
def leading {n k : Nat} (le : k ≤ n) (a : Matrix (Fin n) (Fin n) ℝ) : Matrix (Fin k) (Fin k) ℝ :=
  a.submatrix (Fin.castLE le) (Fin.castLE le)

/-- The leading block of a product is the product of the leading blocks if the columns of the first
factor end there. -/
theorem leading_mul {n k : Nat} (le : k ≤ n) {a : Matrix (Fin n) (Fin n) ℝ}
    (zeros : ∀ i l : Fin n, k ≤ l.val → a i l = 0) (b : Matrix (Fin n) (Fin n) ℝ) :
    leading le (a * b) = leading le a * leading le b := by
  ext i j
  exact sum_head le fun l past =>
    (congrArg (· * b l (j.castLE le)) (zeros (i.castLE le) l past)).trans (zero_mul _)

namespace Columns

variable {m n : Nat} (tall : n ≤ m) (rank : Nat)

/-- The upper triangle in the first `rank` columns of the leading square block. -/
def corner (r : Columns ℝ m n) : Matrix (Fin n) (Fin n) ℝ :=
  .of fun i j => if i ≤ j ∧ j < rank then r.lead tall i j else 0

variable {tall rank} {r : Columns ℝ m n}

theorem corner_of_le {i j : Fin n} (le : i ≤ j) (inside : j < rank) :
    r.corner tall rank i j = r.lead tall i j :=
  if_pos ⟨le, inside⟩

theorem corner_of_lt {i j : Fin n} (lt : j < i) :
    r.corner tall rank i j = 0 :=
  if_neg fun upper => absurd upper.1 (not_le.mpr lt)

theorem corner_of_rank_le {i j : Fin n} (outside : rank ≤ j) :
    r.corner tall rank i j = 0 :=
  if_neg fun upper => absurd upper.2 (not_lt.mpr outside)

/-! ### Inverting one column -/

/-- The product of row `i` of the triangle before column `k` with that column. -/
noncomputable def rowProduct (tall : n ≤ m) (r : Columns ℝ m n) (k i j : Fin n) : ℝ :=
  if i ≤ j ∧ j < k then r.lead tall i j * r.lead tall j k else 0

theorem rowProduct_of_lt {k i j : Fin n} (lt : j < i) :
    r.rowProduct tall k i j = 0 :=
  if_neg fun inside => absurd inside.1 (not_le.mpr lt)

/-- Column `k` with `steps` of the columns before it subtracted. -/
def Subtracted (tall : n ≤ m) (r : Columns ℝ m n) (k : Fin n) (steps : Nat) (col : Vector ℝ m) :
    Prop :=
  ∀ i : Fin n, i ≤ k → col.get (i.castLE tall) =
    (if i = k then 1 / r.lead tall k k else if i.val < steps then 0 else r.lead tall i k) -
      1 / r.lead tall k k * ∑ j with j.val < steps, r.rowProduct tall k i j

theorem Subtracted.subtract {k j : Fin n} {col : Vector ℝ m}
    (h : Subtracted tall r k j col) (before : j < k) :
    let t := 1 / r.lead tall k k * col.get (j.castLE tall)
    let cleared := overwriteAt col (j.castLE tall) 0
    Subtracted tall r k (j + 1)
      (overwriteWhere cleared (· ≤ j.castLE tall) fun i => cleared.get i - t * r.entry i j) := by
  intro t cleared i le
  -- The multiplier has not been touched by the columns before.
  have untouched : ∑ l with l.val < j.val, r.rowProduct tall k j l = 0 :=
    Finset.sum_eq_zero fun l member => rowProduct_of_lt (Finset.mem_filter.mp member).2
  have multiplier : col.get (j.castLE tall) = r.lead tall j k := by
    rw [h j (le_of_lt before), if_neg (ne_of_lt before), if_neg (lt_irrefl _), untouched, mul_zero,
      sub_zero]
  rw [sum_upTo, get_overwriteWhere]
  simp only [t, cleared, get_overwriteAt, multiplier]
  rcases lt_trichotomy i j with above | rfl | below
  · have product : r.rowProduct tall k i j = r.lead tall i j * r.lead tall j k :=
      if_pos ⟨le_of_lt above, before⟩
    rw [if_pos (show i.castLE tall ≤ j.castLE tall from le_of_lt above),
      if_neg (fun same => ne_of_gt above (Fin.castLE_injective tall same)), h i le, product,
      if_pos (show i.val < j.val from above), if_pos (show i.val < j.val + 1 by omega)]
    change _ - _ * r.lead tall i j = _
    ring
  · have product : r.rowProduct tall k i i = r.lead tall i i * r.lead tall i k :=
      if_pos ⟨le_rfl, before⟩
    rw [if_pos le_rfl, if_pos rfl, untouched, product, if_neg (ne_of_lt before),
      if_pos (Nat.lt_succ_self i)]
    change 0 - _ * r.lead tall i i = _
    ring
  · rw [if_neg (show ¬ i.castLE tall ≤ j.castLE tall from not_le.mpr below),
      if_neg (fun same => ne_of_lt below (Fin.castLE_injective tall same)), h i le,
      rowProduct_of_lt below, if_neg (show ¬ i.val < j.val by omega),
      if_neg (show ¬ i.val < j.val + 1 by omega), add_zero]

/-- A column of the inverse, given those before it. -/
theorem get_inverseColumn (r : Columns ℝ m n) (k i : Fin n) (le : i ≤ k) :
    (r.inverseColumn tall k).get (i.castLE tall) =
      ((if i = k then 1 else 0) - ∑ j, r.rowProduct tall k i j) / r.lead tall k k := by
  have done : Subtracted tall r k n (r.inverseColumn tall k) := by
    refine foldl_invariant (fun steps col => Subtracted tall r k steps col) ?_ ?_
    · intro i le
      simp [Fin.ext_iff, lead, entry, eq_comm]
    · intro j col now
      split
      next before => exact now.subtract before
      next after =>
        intro i le
        have past : r.rowProduct tall k i j = 0 := if_neg fun inside => after inside.2
        rw [now i le, sum_upTo, past, add_zero]
        split
        · rfl
        next ne =>
          have lt := lt_of_le_of_ne le ne
          rw [if_pos (show i.val < j.val by omega), if_pos (show i.val < j.val + 1 by omega)]
  rw [done i le]
  simp only [Fin.is_lt, if_true, Finset.filter_true]
  split
  · ring
  · ring

/-! ### Inverting the triangle -/

/-- The columns before `k` have been inverted, the others are still those of `r`. -/
structure Inverted (tall : n ≤ m) (rank : Nat) (r : Columns ℝ m n) (k : Nat)
    (a : Columns ℝ m n) : Prop where
  done : ∀ i j : Fin n, j.val < k → j < rank →
    (a.corner tall rank * r.corner tall rank) i j = if i = j then 1 else 0
  rest : ∀ j : Fin n, k ≤ j → a.get j = r.get j

/-- The next column of the inverse, against the column of the triangle in its place. -/
theorem Inverted.column {a : Columns ℝ m n} {k : Fin n} (h : Inverted tall rank r k a)
    (inside : k < rank) (nonzero : r.lead tall k k ≠ 0) (i : Fin n) :
    (corner tall rank (overwriteAt a k (a.inverseColumn tall k)) * r.corner tall rank) i k =
      if i = k then 1 else 0 := by
  set b : Columns ℝ m n := overwriteAt a k (a.inverseColumn tall k) with b_eq
  have same (i : Fin n) : a.lead tall i k = r.lead tall i k := by
    rw [lead, entry, h.rest k le_rfl]
    rfl
  -- The summands before `k` are the products that the inversion has subtracted.
  have summand (l : Fin n) (ne : l ≠ k) :
      b.corner tall rank i l * r.corner tall rank l k = a.rowProduct tall k i l := by
    rw [rowProduct, same]
    rcases lt_or_gt_of_ne ne with before | past
    · by_cases le : i ≤ l
      · have other : b.lead tall i l = a.lead tall i l := by
          rw [b_eq, lead, entry, get_overwriteAt, if_neg ne.symm]
          rfl
        rw [corner_of_le le (by omega), corner_of_le (le_of_lt before) inside, other,
          if_pos ⟨le, before⟩]
      · rw [corner_of_lt (not_le.mp le), zero_mul, if_neg fun inside => le inside.1]
    · rw [corner_of_lt past, mul_zero, if_neg fun inside => not_lt_of_gt past inside.2]
  have here : a.rowProduct tall k i k = 0 := if_neg fun inside => lt_irrefl _ inside.2
  rw [mul_apply, ← Finset.add_sum_erase _ _ (Finset.mem_univ k),
    Finset.sum_congr rfl fun l member => summand l (Finset.ne_of_mem_erase member),
    Finset.sum_erase _ here, corner_of_le le_rfl inside]
  by_cases le : i ≤ k
  · have inverse : b.lead tall i k =
        ((if i = k then 1 else 0) - ∑ l, a.rowProduct tall k i l) / r.lead tall k k := by
      rw [b_eq, lead, entry, get_overwriteAt, if_pos rfl, get_inverseColumn a k i le, same]
    rw [corner_of_le le inside, inverse, div_mul_cancel₀ _ nonzero, sub_add_cancel]
  · have none (l : Fin n) : a.rowProduct tall k i l = 0 :=
      if_neg fun inside => le (le_of_lt (lt_of_le_of_lt inside.1 inside.2))
    rw [corner_of_lt (not_le.mp le), zero_mul, zero_add,
      Finset.sum_eq_zero fun l _ => none l, if_neg fun same => le (le_of_eq same)]

theorem Inverted.invert {a : Columns ℝ m n} {k : Fin n} (h : Inverted tall rank r k a)
    (inside : k < rank) (nonzero : r.lead tall k k ≠ 0) :
    Inverted tall rank r (k + 1) (overwriteAt a k (a.inverseColumn tall k)) := by
  constructor
  case done =>
    intro i j before below
    rcases Nat.lt_succ_iff_lt_or_eq.mp before with earlier | here
    · rw [← h.done i j earlier below, mul_apply, mul_apply]
      refine Finset.sum_congr rfl fun l _ => ?_
      by_cases past : j < l
      · rw [corner_of_lt past, mul_zero, mul_zero]
      · have ne : k ≠ l := by omega
        simp only [corner, of_apply, lead, entry, get_overwriteAt, if_neg ne]
    · obtain rfl : j = k := Fin.ext here
      exact h.column inside nonzero i
  case rest =>
    intro j after
    rw [get_overwriteAt, if_neg (by rintro rfl; omega)]
    exact h.rest j (by omega)

theorem invertTriangle_inverted (nonzero : ∀ k : Fin n, k < rank → r.lead tall k k ≠ 0) :
    Inverted tall rank r n (r.invertTriangle tall rank) := by
  refine foldl_invariant (fun k a => Inverted tall rank r k a) ⟨nofun, fun _ _ => rfl⟩ ?_
  intro k a now
  split
  next inside => exact now.invert inside (nonzero k inside)
  next outside =>
    exact {
      done := fun i j before below => by
        rcases Nat.lt_succ_iff_lt_or_eq.mp before with earlier | here
        · exact now.done i j earlier below
        · exact absurd (here ▸ below) outside
      rest := fun j after => now.rest j (by omega) }

/-- The triangle that is left is an inverse of `R` on the block of full rank. -/
theorem corner_invertTriangle_mul (nonzero : ∀ k : Fin n, k < rank → r.lead tall k k ≠ 0) :
    (r.invertTriangle tall rank).corner tall rank * r.corner tall rank =
      diagonal fun j : Fin n => if j < rank then 1 else 0 := by
  ext i j
  by_cases inside : j < rank
  · rw [(invertTriangle_inverted nonzero).done i j j.isLt inside, diagonal_apply]
    split
    next same => rw [same, if_pos inside]
    next => rfl
  · rw [mul_apply, Finset.sum_eq_zero fun l _ => by
      rw [corner_of_rank_le (not_lt.mp inside), mul_zero], diagonal_apply]
    split
    next same => rw [same, if_neg inside]
    next => rfl

/-! ### Multiplying with the transpose -/

/-- The columns before `k` of the triangle with the columns of `u` have been replaced by what the
columns before `k` contribute to the product of `u` with its transpose. -/
def Multiplied (tall : n ≤ m) (rank : Nat) (u : Columns ℝ m n) (k : Nat) (a : Columns ℝ m n) :
    Prop :=
  ∀ i j : Fin n, i ≤ j → a.lead tall i j =
    if j.val < k ∧ j < rank then
      ∑ l with l.val < k, u.corner tall rank i l * u.corner tall rank j l
    else u.lead tall i j

theorem lead_multiplyColumn (a : Columns ℝ m n) (k i j : Fin n) (le : i ≤ j) :
    (a.multiplyColumn tall k).lead tall i j =
      if j < k then a.lead tall i j + a.lead tall j k * a.lead tall i k
      else if j = k then a.lead tall i j * a.lead tall j k else a.lead tall i j := by
  have upper : i.castLE tall ≤ j.castLE tall := le
  unfold multiplyColumn lead entry
  rw [get_overwrite]
  split
  · rw [get_overwriteWhere, if_pos upper]
  · split
    · rw [get_overwriteWhere, if_pos upper]
    · rfl

theorem Multiplied.multiply {u a : Columns ℝ m n} {k : Fin n} (h : Multiplied tall rank u k a)
    (inside : k < rank) : Multiplied tall rank u (k + 1) (a.multiplyColumn tall k) := by
  intro i j le
  -- Column `k` is still that of `u`.
  have column (i : Fin n) (le : i ≤ k) : a.lead tall i k = u.corner tall rank i k := by
    rw [h i k le, if_neg fun before => lt_irrefl _ before.1, corner_of_le le inside]
  rw [lead_multiplyColumn a k i j le, sum_upTo]
  rcases lt_trichotomy j k with before | rfl | after
  · rw [if_pos before, h i j le, if_pos ⟨before, by omega⟩, if_pos ⟨by omega, by omega⟩,
      column j (le_of_lt before), column i (le.trans (le_of_lt before)), mul_comm]
  · rw [if_neg (lt_irrefl _), if_pos rfl, if_pos ⟨Nat.lt_succ_self _, inside⟩, column i le,
      column j le_rfl, Finset.sum_eq_zero fun l member => by
        rw [corner_of_lt (show l < j from (Finset.mem_filter.mp member).2), mul_zero], zero_add]
  · rw [if_neg (not_lt_of_gt after), if_neg (ne_of_gt after), h i j le,
      if_neg fun before => not_lt_of_gt after before.1, if_neg (by omega)]

theorem Multiplied.skip {u a : Columns ℝ m n} {k : Fin n} (h : Multiplied tall rank u k a)
    (outside : ¬ k < rank) : Multiplied tall rank u (k + 1) a := by
  intro i j le
  rw [h i j le, sum_upTo, corner_of_rank_le (not_lt.mp outside), zero_mul, add_zero]
  exact if_congr (by omega) rfl rfl

theorem multiplyTranspose_multiplied (u : Columns ℝ m n) :
    Multiplied tall rank u n (u.multiplyTranspose tall rank) := by
  refine foldl_invariant (fun k a => Multiplied tall rank u k a) ?_ fun k a now => ?_
  · exact fun i j _ => (if_neg fun before => absurd before.1 (Nat.not_lt_zero _)).symm
  · split
    next inside => exact now.multiply inside
    next outside => exact now.skip outside

/-- What is left in the order of the positions, above and on the diagonal. -/
theorem lead_positioned (r : Columns ℝ m n) {i j : Fin n} (le : i ≤ j) :
    (r.positioned tall rank).lead tall i j =
      ((r.invertTriangle tall rank).corner tall rank *
        ((r.invertTriangle tall rank).corner tall rank)ᵀ) i j := by
  set u := r.invertTriangle tall rank with u_eq
  rw [positioned, ← u_eq, lead_clearFrom _ le, mul_apply]
  split
  next past =>
    have none (l : Fin n) : u.corner tall rank j l = 0 := by
      by_cases before : l < j
      · exact corner_of_lt before
      · exact corner_of_rank_le (past.trans (not_lt.mp before))
    exact (Finset.sum_eq_zero fun l _ => by rw [transpose_apply, none, mul_zero]).symm
  next inside =>
    rw [multiplyTranspose_multiplied u i j le, if_pos ⟨j.isLt, not_le.mp inside⟩]
    simp

/-- The inverse in the order of the pivots, as a product of the inverted triangle with its
transpose. -/
theorem gramInverse_submatrix (tall : n ≤ m) {pivots : Vector (Fin n) n}
    (apart : Function.Injective pivots.get) (r : Columns ℝ m n) (tol : ℝ) :
    let rank := r.leadingRank tall tol
    let v := (r.invertTriangle tall rank).corner tall rank
    (Matrix.of ((r.gramInverse tall pivots tol).1.lead tall)).submatrix pivots.get pivots.get =
      v * vᵀ := by
  intro rank v
  obtain ⟨symmetric, placed⟩ := @lead_gramInverse ℝ m n _ tall _ apart r tol
  ext i j
  change (r.gramInverse tall pivots tol).1.lead tall (pivots.get i) (pivots.get j) = _
  rcases le_total i j with le | le
  · rw [placed i j le, lead_positioned r le]
  · rw [symmetric, placed j i le, lead_positioned r le, ← transpose_apply (v * vᵀ), transpose_mul,
      transpose_transpose]

/-! ### The rank -/

theorem lt_leadingRank_iff {tol : ℝ} {k : Fin n} : k < r.leadingRank tall tol ↔
    ∀ j ≤ k, tol * |r.lead tall ⟨0, k.pos⟩ ⟨0, k.pos⟩| < |r.lead tall j j| := by
  unfold leadingRank
  rw [dif_pos k.pos, lt_firstIndex_iff]
  simp only [decide_eq_false_iff_not, not_le, abs_real]

theorem leadingRank_le (tall : n ≤ m) (r : Columns ℝ m n) (tol : ℝ) :
    r.leadingRank tall tol ≤ n := by
  unfold leadingRank
  split
  · exact firstIndex_le _
  · exact Nat.zero_le n

theorem ne_zero_of_lt_leadingRank {tol : ℝ} (nonneg : 0 ≤ tol) {k : Fin n}
    (inside : k < r.leadingRank tall tol) : r.lead tall k k ≠ 0 := by
  have large := lt_leadingRank_iff.mp inside k le_rfl
  exact abs_pos.mp (lt_of_le_of_lt (mul_nonneg nonneg (abs_nonneg _)) large)

/-- No diagonal entry of the triangle is small relative to the first. -/
def FullRank (tall : n ≤ m) (r : Columns ℝ m n) (tol : ℝ) : Prop :=
  ∀ k first : Fin n, first.val = 0 → tol * |r.lead tall first first| < |r.lead tall k k|

theorem fullRank_iff {tol : ℝ} : r.FullRank tall tol ↔ r.leadingRank tall tol = n := by
  constructor
  · intro full
    refine le_antisymm (leadingRank_le tall r tol) (not_lt.mp fun deficient => ?_)
    have inside := (lt_leadingRank_iff (k := ⟨_, deficient⟩)).mpr fun j _ => full j _ rfl
    exact lt_irrefl _ inside
  · intro full k first zero
    obtain rfl : first = ⟨0, k.pos⟩ := Fin.ext zero
    exact lt_leadingRank_iff.mp (by rw [full]; exact k.isLt) k le_rfl

/-! ### The leading block -/

/-- What is left of the first `rank` positions is the inverse of the leading block of `Rᵀ R`. -/
theorem leading_mul_gram (le : rank ≤ n)
    (nonzero : ∀ k : Fin n, k < rank → r.lead tall k k ≠ 0) :
    let v := (r.invertTriangle tall rank).corner tall rank
    leading le (v * vᵀ) * ((leading le (r.upper tall))ᵀ * leading le (r.upper tall)) = 1 := by
  intro v
  have past (i l : Fin n) (outside : rank ≤ l.val) : v i l = 0 := corner_of_rank_le outside
  set w := leading le v
  set u := leading le (r.upper tall)
  have triangle : leading le (r.corner tall rank) = u := by
    ext i j
    exact if_congr (and_iff_left j.isLt) rfl rfl
  have identity : w * u = 1 := by
    rw [← triangle, ← leading_mul le past, corner_invertTriangle_mul nonzero]
    ext i j
    simp [leading, diagonal_apply, one_apply]
  calc _ = w * wᵀ * (uᵀ * u) := by rw [leading_mul le past]; rfl
    _ = w * (u * w)ᵀ * u := by
      rw [transpose_mul]
      simp only [Matrix.mul_assoc]
    _ = w * u := by
      rw [mul_eq_one_comm.mp identity, transpose_one, Matrix.mul_one]
    _ = 1 := identity

/-- In the order of the positions, the inverse of a triangle of full rank is that of `Rᵀ R`. -/
theorem FullRank.gramInverse_mul {pivots : Vector (Fin n) n}
    (apart : Function.Injective pivots.get) {tol : ℝ} (nonneg : 0 ≤ tol)
    (h : r.FullRank tall tol) :
    (Matrix.of ((r.gramInverse tall pivots tol).1.lead tall)).submatrix pivots.get pivots.get *
      ((r.upper tall)ᵀ * r.upper tall) = 1 := by
  have nonzero (k : Fin n) (inside : k < r.leadingRank tall tol) : r.lead tall k k ≠ 0 :=
    ne_zero_of_lt_leadingRank nonneg inside
  rw [gramInverse_submatrix tall apart]
  rw [fullRank_iff.mp h] at nonzero ⊢
  exact leading_mul_gram le_rfl nonzero

/-- The rank is the number of the diagonal entries before the first one that is small relative to
the first of all. In the order of the pivots, the leading block of that size is the inverse of that
of `Rᵀ R`, and the rest is zero. At full rank the whole matrix is the inverse of `P Rᵀ R Pᵀ`. -/
theorem gramInverse_inverts (tall : n ≤ m) (r : Columns ℝ m n) {pivots : Vector (Fin n) n}
    (permutation : Function.Bijective pivots.get) {tol : ℝ} (nonneg : 0 ≤ tol) :
    let (left, rank) := r.gramInverse tall pivots tol
    let inverse := Matrix.of (left.lead tall)
    let R := r.upper tall
    let P := pivoting pivots
    (∀ k : Fin n, k < rank ↔
      ∀ j ≤ k, tol * |r.lead tall ⟨0, k.pos⟩ ⟨0, k.pos⟩| < |r.lead tall j j|) ∧
    (∃ le : rank ≤ n,
      IsUnit ((leading le R)ᵀ * leading le R).det ∧
      leading le (inverse.submatrix pivots.get pivots.get) =
        ((leading le R)ᵀ * leading le R)⁻¹) ∧
    (∀ i j : Fin n, rank ≤ i ∨ rank ≤ j → inverse (pivots.get i) (pivots.get j) = 0) ∧
    (rank = n → inverse * (P * (Rᵀ * R) * Pᵀ) = 1) := by
  have apart := permutation.injective
  refine ⟨fun k => lt_leadingRank_iff, ⟨leadingRank_le tall r tol, ?_⟩, fun i j past =>
    lead_gramInverse_of_rank_le tall apart r tol past, fun full => ?_⟩
  · have block := gramInverse_submatrix tall apart r tol
    have product := leading_mul_gram (leadingRank_le tall r tol) fun k =>
      ne_zero_of_lt_leadingRank nonneg
    dsimp only at block product
    rw [← block] at product
    exact ⟨isUnit_det_of_left_inverse product, (inv_eq_left_inv product).symm⟩
  · have product := (fullRank_iff.mpr full).gramInverse_mul apart nonneg
    set inverse := Matrix.of ((r.gramInverse tall pivots tol).1.lead tall)
    set P := pivoting pivots
    set gram := (r.upper tall)ᵀ * r.upper tall
    have ordered : Pᵀ * inverse * P = inverse.submatrix pivots.get pivots.get := by
      rw [pivoting_transpose_mul, mul_pivoting]
      rfl
    calc inverse * (P * gram * Pᵀ) = P * Pᵀ * (inverse * (P * gram * Pᵀ)) := by
          rw [pivoting_mul_transpose apart, Matrix.one_mul]
      _ = P * (Pᵀ * inverse * P * gram) * Pᵀ := by simp only [Matrix.mul_assoc]
      _ = 1 := by rw [ordered, product, Matrix.mul_one, pivoting_mul_transpose apart]

/-- The second diagonal entry is just the tolerance times the first, so the rank is one. The entry
below the diagonal does not matter. -/
theorem gramInverse_inverts_deficient :
    let r : Columns ℝ 2 2 := #v[#v[2, 7], #v[3, 1]]
    let pivots : Vector (Fin 2) 2 := #v[1, 0]
    let (left, rank) := r.gramInverse (Nat.le_refl 2) pivots (1 / 2)
    Function.Bijective pivots.get ∧ (0 : ℝ) ≤ 1 / 2 ∧ rank = 1 ∧ left.entry 1 1 = 1 / 4 ∧
      left.entry 0 0 = 0 ∧ left.entry 0 1 = 0 ∧ left.entry 1 0 = 0 := by
  intro r pivots
  have permutation : Function.Bijective pivots.get := by decide
  have nonneg : (0 : ℝ) ≤ 1 / 2 := by norm_num
  have spec := gramInverse_inverts (Nat.le_refl 2) r permutation nonneg
  generalize r.gramInverse (Nat.le_refl 2) pivots (1 / 2) = result at spec ⊢
  obtain ⟨left, rank⟩ := result
  obtain ⟨counted, ⟨le, regular, block⟩, zeros, -⟩ := spec
  have first : r.lead (Nat.le_refl 2) 0 0 = 2 := rfl
  have second : r.lead (Nat.le_refl 2) 1 1 = 1 := rfl
  have large (k : Fin 2) : k.val < rank ↔ ∀ j ≤ k, 1 / 2 * |2| < |r.lead (Nat.le_refl 2) j j| :=
    counted k
  have inside : 0 < rank := (large 0).mpr fun j le => by
    obtain rfl : j = 0 := by omega
    rw [first]
    norm_num
  have outside : ¬ 1 < rank := mt (large 1).mp fun all => by
    have last := all 1 le_rfl
    rw [second] at last
    norm_num at last
  obtain rfl : rank = 1 := by omega
  have upper : leading le (r.upper (Nat.le_refl 2)) = diagonal fun _ => 2 := by
    ext i j
    fin_cases i
    fin_cases j
    exact (upper_diagonal r 0).trans first
  have corner : left.entry 1 1 = 1 / 4 := by
    refine (congrFun (congrFun block 0) 0).trans ?_
    rw [upper]
    norm_num
  exact ⟨permutation, nonneg, rfl, corner, zeros 1 1 (.inl le_rfl), zeros 1 0 (.inl le_rfl),
    zeros 0 1 (.inr le_rfl)⟩

end Columns

end LeastSquares
