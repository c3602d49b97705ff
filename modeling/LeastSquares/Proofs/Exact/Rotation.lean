import Mathlib
import LeastSquares.Damping.Rotation
import LeastSquares.Proofs.Exact.Scalar

/-!
# Rotations preserve products

Absorbing a row into a triangle turns, for each entry of the row, one row of the triangle against
it. Without errors of rounding this keeps the products of all columns, among them the column of the
right-hand sides, and leaves nothing of the row.
-/
namespace LeastSquares

variable {m n : Nat}

/-! ### One rotation -/

namespace Rotation

theorem quotient_unit (q : ℝ) : (0.5 / √(0.25 + 0.25 * q * q)) ^ 2 * (1 + q ^ 2) = 1 := by
  have positive : 0 < 0.25 + 0.25 * q * q := by nlinarith [sq_nonneg q]
  rw [div_pow, Real.sq_sqrt (le_of_lt positive)]
  field_simp
  ring

theorem annihilate_unit (a b : ℝ) :
    (annihilate a b).cos ^ 2 + (annihilate a b).sin ^ 2 = 1 := by
  unfold annihilate
  split
  · have unit := quotient_unit (a / b)
    dsimp only [sqrt_real]
    linear_combination unit
  · have unit := quotient_unit (b / a)
    dsimp only [sqrt_real]
    linear_combination unit

theorem annihilate_turns {a b : ℝ} (nonzero : b ≠ 0) :
    -(annihilate a b).sin * a + (annihilate a b).cos * b = 0 := by
  unfold annihilate
  split
  · dsimp only
    field_simp
    ring
  next large =>
    have lead : a ≠ 0 := by
      rintro rfl
      exact large (by simpa using nonzero)
    dsimp only
    field_simp
    ring

end Rotation

/-! ### Columns of the triangle -/

/-- Entry `l` of a column of the triangle kept below the diagonal of `a`, or of its right-hand
sides. -/
noncomputable def coefficient (tall : n ≤ m) (a : Columns ℝ m n) (rhs : Vector ℝ n) :
    Option (Fin n) → Fin n → ℝ
  | some i, l => if l ≤ i then a.lead tall i l else 0
  | none, l => rhs.get l

namespace Absorption

variable {tall : n ≤ m}

/-- What is left of the row, below the same column, before entry `k` is absorbed. -/
noncomputable def pending (s : Absorption ℝ m n) (k : Nat) : Option (Fin n) → ℝ
  | some i => if k ≤ i.val then s.row.get i else 0
  | none => s.extra

theorem rotate_of_zero {s : Absorption ℝ m n} {k : Fin n} (zero : s.row.get k = 0) :
    s.rotate tall k = s :=
  if_pos (beq_iff_eq.mpr zero)

/-- The rotation that absorbs entry `k`, if it is not zero. -/
noncomputable def turn (tall : n ≤ m) (s : Absorption ℝ m n) (k : Fin n) : Rotation ℝ :=
  .annihilate (s.triangle.lead tall k k) (s.row.get k)

section

variable {s : Absorption ℝ m n} {k : Fin n} (nonzero : s.row.get k ≠ 0)
include nonzero

theorem lead_rotate (i l : Fin n) : (s.rotate tall k).triangle.lead tall i l =
    if l = k ∧ k ≤ i then
      (s.turn tall k).cos * s.triangle.lead tall i k + (s.turn tall k).sin * s.row.get i
    else s.triangle.lead tall i l := by
  rw [rotate, if_neg fun zero => nonzero (beq_iff_eq.mp zero)]
  simp only [Columns.lead, Columns.entry, get_overwriteAt]
  split
  next same =>
    subst same
    simp only [get_overwriteHead, Fin.val_castLE, i.isLt, dite_true, Fin.eta, true_and]
    rfl
  next other => rw [if_neg fun both => other both.1.symm]

theorem get_rotate_rhs (l : Fin n) : (s.rotate tall k).rhs.get l =
    if l = k then (s.turn tall k).cos * s.rhs.get k + (s.turn tall k).sin * s.extra
    else s.rhs.get l := by
  rw [rotate, if_neg fun zero => nonzero (beq_iff_eq.mp zero)]
  simp only [get_overwriteAt, eq_comm]
  rfl

theorem get_rotate_row (i : Fin n) : (s.rotate tall k).row.get i =
    if k < i then
      -(s.turn tall k).sin * s.triangle.lead tall i k + (s.turn tall k).cos * s.row.get i
    else s.row.get i := by
  rw [rotate, if_neg fun zero => nonzero (beq_iff_eq.mp zero)]
  simp only [get_overwriteWhere]
  rfl

theorem rotate_extra : (s.rotate tall k).extra =
    -(s.turn tall k).sin * s.rhs.get k + (s.turn tall k).cos * s.extra := by
  rw [rotate, if_neg fun zero => nonzero (beq_iff_eq.mp zero)]
  rfl

/-- Row `k` of the triangle, right-hand sides included, turns against the row. -/
theorem coefficient_rotate (o : Option (Fin n)) (l : Fin n) :
    coefficient tall (s.rotate tall k).triangle (s.rotate tall k).rhs o l =
      if l = k then (s.turn tall k).cos * coefficient tall s.triangle s.rhs o k +
        (s.turn tall k).sin * s.pending k o
      else coefficient tall s.triangle s.rhs o l := by
  cases o with
  | none => exact get_rotate_rhs nonzero l
  | some i =>
    simp only [coefficient, pending, lead_rotate nonzero, Fin.le_def]
    by_cases same : l = k
    · subst same
      by_cases inside : l.val ≤ i.val <;> simp [inside]
    · simp [same]

/-- The row turns as well, and entry `k` of it is spent. -/
theorem pending_rotate (o : Option (Fin n)) : (s.rotate tall k).pending (k + 1) o =
    -(s.turn tall k).sin * coefficient tall s.triangle s.rhs o k +
      (s.turn tall k).cos * s.pending k o := by
  cases o with
  | none => exact rotate_extra nonzero
  | some i =>
    simp only [coefficient, pending, get_rotate_row nonzero, Fin.le_def, Fin.lt_def]
    rcases lt_trichotomy i k with before | rfl | after
    · have bound : ¬ k.val ≤ i.val ∧ ¬ k.val + 1 ≤ i.val := by omega
      simp [bound]
    · have spent : -(s.turn tall i).sin * s.triangle.lead tall i i +
          (s.turn tall i).cos * s.row.get i = 0 := Rotation.annihilate_turns nonzero
      simpa using spent.symm
    · have bound : k.val ≤ i.val ∧ k.val + 1 ≤ i.val ∧ k.val < i.val := by omega
      simp [bound]

end

/-- An entry that is zero does not count. -/
theorem pending_of_zero {s : Absorption ℝ m n} {k : Fin n} (zero : s.row.get k = 0)
    (o : Option (Fin n)) : s.pending (k + 1) o = s.pending k o := by
  cases o with
  | none => rfl
  | some i =>
    rcases lt_trichotomy i k with before | rfl | after
    · have bound : ¬ k.val ≤ i.val ∧ ¬ k.val + 1 ≤ i.val := by omega
      simp [pending, bound]
    · simp [pending, zero]
    · have bound : k.val ≤ i.val ∧ k.val + 1 ≤ i.val := by omega
      simp [pending, bound]

/-- Absorbing entry `k` turns row `k` of the triangle against the row, right-hand sides included,
and spends the entry. -/
theorem rotate_turns (tall : n ≤ m) (s : Absorption ℝ m n) (k : Fin n) :
    ∃ g : Rotation ℝ, g.cos ^ 2 + g.sin ^ 2 = 1 ∧ ∀ o,
      (∀ l, coefficient tall (s.rotate tall k).triangle (s.rotate tall k).rhs o l =
        if l = k then
          g.cos * coefficient tall s.triangle s.rhs o k + g.sin * s.pending k o
        else coefficient tall s.triangle s.rhs o l) ∧
      (s.rotate tall k).pending (k + 1) o =
        -g.sin * coefficient tall s.triangle s.rhs o k + g.cos * s.pending k o := by
  by_cases zero : s.row.get k = 0
  · -- No rotation is one by no angle.
    refine ⟨⟨0, 1⟩, by norm_num, fun o => ⟨fun l => ?_, ?_⟩⟩
    · rw [rotate_of_zero zero]
      split
      next same => rw [same]; ring
      next => rfl
    · rw [rotate_of_zero zero, pending_of_zero zero]
      ring
  · exact ⟨s.turn tall k, Rotation.annihilate_unit _ _,
      fun o => ⟨coefficient_rotate zero o, pending_rotate zero o⟩⟩

/-! ### Products of columns -/

/-- The product of two columns with what is left of the row below them. -/
noncomputable def product (tall : n ≤ m) (s : Absorption ℝ m n) (k : Nat)
    (o o' : Option (Fin n)) : ℝ :=
  ∑ l, coefficient tall s.triangle s.rhs o l * coefficient tall s.triangle s.rhs o' l +
    s.pending k o * s.pending k o'

theorem rotate_product (tall : n ≤ m) (s : Absorption ℝ m n) (k : Fin n) (o o' : Option (Fin n)) :
    (s.rotate tall k).product tall (k + 1) o o' = s.product tall k o o' := by
  obtain ⟨g, unit, turns⟩ := s.rotate_turns tall k
  obtain ⟨first, rest⟩ := turns o
  obtain ⟨second, rest'⟩ := turns o'
  have others : ∑ l ∈ Finset.univ.erase k,
      coefficient tall (s.rotate tall k).triangle (s.rotate tall k).rhs o l *
        coefficient tall (s.rotate tall k).triangle (s.rotate tall k).rhs o' l =
      ∑ l ∈ Finset.univ.erase k, coefficient tall s.triangle s.rhs o l *
        coefficient tall s.triangle s.rhs o' l := by
    refine Finset.sum_congr rfl fun l other => ?_
    rw [first, second, if_neg (Finset.ne_of_mem_erase other),
      if_neg (Finset.ne_of_mem_erase other)]
  rw [product, product, ← Finset.add_sum_erase _ _ (Finset.mem_univ k),
    ← Finset.add_sum_erase _ _ (Finset.mem_univ k), others, first, second, rest, rest',
    if_pos rfl, if_pos rfl]
  -- The rows `k` of both columns turn against the row by the same rotation.
  linear_combination (coefficient tall s.triangle s.rhs o k * coefficient tall s.triangle s.rhs o' k
    + s.pending k o * s.pending k o') * unit

theorem run_product (tall : n ≤ m) (s : Absorption ℝ m n) (o o' : Option (Fin n)) :
    (s.run tall).product tall n o o' = s.product tall 0 o o' :=
  foldl_invariant (fun k done => Absorption.product tall done k o o' = s.product tall 0 o o') rfl
    fun k done now => (rotate_product tall done k o o').trans now

/-- Nothing of the row is left at the end. -/
theorem pending_end (s : Absorption ℝ m n) (i : Fin n) : s.pending n (some i) = 0 :=
  if_neg (not_le.mpr i.isLt)

/-! ### The diagonal -/

/-- The diagonal only grows, and it does wherever an entry is absorbed. -/
theorem rotate_diagonal (tall : n ≤ m) (s : Absorption ℝ m n) (k i : Fin n) :
    (s.rotate tall k).triangle.lead tall i i ^ 2 =
      s.triangle.lead tall i i ^ 2 + if i = k then s.row.get k ^ 2 else 0 := by
  obtain ⟨g, unit, turns⟩ := s.rotate_turns tall k
  obtain ⟨column, rest⟩ := turns (some i)
  have entry := column i
  simp only [coefficient, le_refl, if_true] at entry
  rw [entry]
  split
  next same =>
    subst same
    simp only [pending, coefficient, le_refl, if_true,
      if_neg (show ¬ i.val + 1 ≤ i.val by omega)] at rest ⊢
    linear_combination (s.triangle.lead tall i i ^ 2 + s.row.get i ^ 2) * unit +
      (-g.sin * s.triangle.lead tall i i + g.cos * s.row.get i) * rest
  next => rw [add_zero]

theorem run_diagonal_le (tall : n ≤ m) (s : Absorption ℝ m n) (i : Fin n) :
    s.triangle.lead tall i i ^ 2 ≤ (s.run tall).triangle.lead tall i i ^ 2 := by
  refine foldl_invariant (fun _ (done : Absorption ℝ m n) =>
    s.triangle.lead tall i i ^ 2 ≤ done.triangle.lead tall i i ^ 2) le_rfl ?_
  intro k done now
  rw [rotate_diagonal]
  have gain : 0 ≤ if i = k then done.row.get k ^ 2 else 0 := by
    split
    · exact sq_nonneg _
    · exact le_rfl
  linarith

/-- The first entry of a row leaves its mark on the diagonal. -/
theorem run_diagonal_ne_zero {s : Absorption ℝ m n} {j : Fin n}
    (first : ∀ k < j, s.row.get k = 0) (nonzero : s.row.get j ≠ 0) :
    (s.run tall).triangle.lead tall j j ≠ 0 := by
  have marked : (n ≤ j.val → s.run tall = s) ∧
      (j.val < n → 0 < (s.run tall).triangle.lead tall j j ^ 2) := by
    refine foldl_invariant (fun k (done : Absorption ℝ m n) => (k ≤ j.val → done = s) ∧
      (j.val < k → 0 < done.triangle.lead tall j j ^ 2)) ⟨fun _ => rfl, by omega⟩ ?_
    rintro k done ⟨before, after⟩
    constructor
    · intro earlier
      obtain rfl := before (by omega)
      exact rotate_of_zero (first k (by omega))
    · intro later
      rw [rotate_diagonal]
      rcases Nat.lt_succ_iff_lt_or_eq.mp later with past | now
      · have positive := after past
        split <;> positivity
      · obtain rfl : j = k := Fin.ext now
        obtain rfl := before le_rfl
        rw [if_pos rfl]
        positivity
  exact fun zero => absurd (marked.2 j.isLt) (by rw [zero]; norm_num)

end Absorption

end LeastSquares
