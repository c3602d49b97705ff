import Mathlib
import LeastSquares.Factor.Pivoted
import LeastSquares.Proofs.Exact.Scalar

/-!
# Reflections preserve lengths

Without errors of rounding the vector a reflector is stored as has a square that is twice its
leading entry, which makes the reflection orthogonal on the entries it acts on.
-/
namespace LeastSquares

variable {m : Nat}

/-- The product of the entries from position `j` on. -/
noncomputable def tailDot (v w : Vector ℝ m) (j : Nat) : ℝ :=
  ∑ i with j ≤ i.val, v.get i * w.get i

theorem tailDot_self (v : Vector ℝ m) (j : Nat) : tailDot v v j = tailSquare v j :=
  Finset.sum_congr rfl fun _ _ => (pow_two _).symm

/-- The vector `v` is stored for a reflection of the entries from position `j` on. -/
structure IsReflector (j : Fin m) (v : Vector ℝ m) : Prop where
  lead : v.get j ≠ 0
  square : tailSquare v j = 2 * v.get j

/-! ### Reflecting -/

theorem get_reflect (j : Fin m) (v w : Vector ℝ m) (i : Fin m) :
    (reflect j v w).get i =
      if j ≤ i then w.get i - tailDot v w j / v.get j * v.get i else w.get i := by
  unfold reflect
  rw [get_overwriteWhere, sumWhere_real]
  rfl

theorem get_reflect_of_lt {j i : Fin m} (before : i < j) (v w : Vector ℝ m) :
    (reflect j v w).get i = w.get i := by
  rw [get_reflect, if_neg (not_le.mpr before)]

/-- What has nothing from position `j` on is left as it is. -/
theorem reflect_of_zero {j : Fin m} {w : Vector ℝ m} (zero : ∀ i, j ≤ i → w.get i = 0)
    (v : Vector ℝ m) : reflect j v w = w := by
  have product : tailDot v w j = 0 :=
    Finset.sum_eq_zero fun i inside => by rw [zero i (Finset.mem_filter.mp inside).2, mul_zero]
  apply eq_of_get_eq
  intro i
  rw [get_reflect, product, zero_div, zero_mul, sub_zero, ite_self]

/-- A reflection preserves products, and lengths with them. -/
theorem IsReflector.tailDot_reflect {j : Fin m} {v : Vector ℝ m} (h : IsReflector j v)
    (w w' : Vector ℝ m) : tailDot (reflect j v w) (reflect j v w') j = tailDot w w' j := by
  have nonzero := h.lead
  set t := tailDot v w j / v.get j with t_eq
  set t' := tailDot v w' j / v.get j with t'_eq
  have first : tailDot v w j = t * v.get j := by rw [t_eq, div_mul_cancel₀ _ nonzero]
  have second : tailDot v w' j = t' * v.get j := by rw [t'_eq, div_mul_cancel₀ _ nonzero]
  calc tailDot (reflect j v w) (reflect j v w') j
      = ∑ i with j.val ≤ i.val, (w.get i * w'.get i - t' * (v.get i * w.get i) -
          t * (v.get i * w'.get i) + t * t' * v.get i ^ 2) := by
        refine Finset.sum_congr rfl fun i inside => ?_
        have inside : j ≤ i := (Finset.mem_filter.mp inside).2
        rw [get_reflect, get_reflect, if_pos inside, if_pos inside, ← t_eq, ← t'_eq]
        ring
    _ = tailDot w w' j - t' * tailDot v w j - t * tailDot v w' j + t * t' * tailSquare v j := by
        simp only [tailDot, tailSquare, Finset.sum_add_distrib, Finset.sum_sub_distrib,
          Finset.mul_sum]
    _ = tailDot w w' j := by
        rw [first, second, h.square]
        ring

theorem IsReflector.tailSquare_reflect {j : Fin m} {v : Vector ℝ m} (h : IsReflector j v)
    (w : Vector ℝ m) : tailSquare (reflect j v w) j = tailSquare w j := by
  rw [← tailDot_self, ← tailDot_self, h.tailDot_reflect]

/-! ### Tails -/

theorem tailSquare_succ (v : Vector ℝ m) (j : Fin m) :
    tailSquare v j = v.get j ^ 2 + tailSquare v (j + 1) :=
  sum_from _ j

theorem tailSquare_nonneg (v : Vector ℝ m) (j : Nat) : 0 ≤ tailSquare v j :=
  Finset.sum_nonneg fun _ _ => sq_nonneg _

/-- Nothing is left of a tail of which nothing was left before. -/
theorem tailSquare_succ_of_zero {v : Vector ℝ m} {j : Fin m} (zero : tailSquare v j = 0) :
    tailSquare v (j + 1) = 0 := by
  have split := tailSquare_succ v j
  exact le_antisymm (by linarith [sq_nonneg (v.get j)]) (tailSquare_nonneg _ _)

/-! ### Reflectors -/

theorem get_reflector (j : Fin m) (length : ℝ) (col : Vector ℝ m) (i : Fin m) :
    (reflector j length col).get i =
      if i = j then col.get j / length + 1
      else if j ≤ i then col.get i / length else col.get i := by
  unfold reflector
  rw [get_overwriteAt, get_overwriteWhere, get_overwriteWhere, if_pos le_rfl]
  simp only [eq_comm]

/-- The reflector of a column is made for its length and the sign of its first entry. -/
theorem isReflector_reflector {j : Fin m} {length : ℝ} {col : Vector ℝ m}
    (square : length ^ 2 = tailSquare col j) (nonzero : length ≠ 0)
    (sign : 0 ≤ col.get j / length) : IsReflector j (reflector j length col) := by
  have lead : (reflector j length col).get j = col.get j / length + 1 := by
    rw [get_reflector, if_pos rfl]
  have tail : tailSquare (reflector j length col) (j + 1) =
      tailSquare col (j + 1) / length ^ 2 := by
    rw [tailSquare, tailSquare, Finset.sum_div]
    refine Finset.sum_congr rfl fun i after => ?_
    have after : j.val + 1 ≤ i.val := (Finset.mem_filter.mp after).2
    rw [get_reflector, if_neg (by omega), if_pos (by omega), div_pow]
  refine ⟨by rw [lead]; positivity, ?_⟩
  rw [tailSquare_succ, tail, lead, eq_sub_of_add_eq' (tailSquare_succ col j).symm, ← square]
  field_simp
  ring

/-- The column it is made for loses all its entries but the first, which becomes its length, with
the opposite sign. -/
theorem reflect_reflector {j : Fin m} {length : ℝ} {col : Vector ℝ m}
    (square : length ^ 2 = tailSquare col j) (nonzero : length ≠ 0)
    (sign : 0 ≤ col.get j / length) (i : Fin m) :
    (reflect j (reflector j length col) col).get i =
      if i < j then col.get i else if i = j then -length else 0 := by
  set v := reflector j length col with v_eq
  have lead : v.get j = col.get j / length + 1 := by
    rw [v_eq, get_reflector, if_pos rfl]
  have after {k : Fin m} (lt : j < k) : v.get k = col.get k / length := by
    rw [v_eq, get_reflector, if_neg (ne_of_gt lt), if_pos (le_of_lt lt)]
  have product : tailDot v col j = length * v.get j := by
    have rest : ∑ i with j.val + 1 ≤ i.val, v.get i * col.get i =
        tailSquare col (j + 1) / length := by
      rw [tailSquare, Finset.sum_div]
      refine Finset.sum_congr rfl fun k member => ?_
      rw [after (Fin.lt_def.mpr (Finset.mem_filter.mp member).2)]
      ring
    rw [tailDot, sum_from, rest, lead, eq_sub_of_add_eq' (tailSquare_succ col j).symm, ← square]
    field_simp
    ring
  have quotient : tailDot v col j / v.get j = length := by
    rw [product, mul_div_cancel_right₀]
    rw [lead]
    positivity
  rw [get_reflect, quotient]
  rcases lt_trichotomy i j with before | rfl | later
  · rw [if_neg (not_le.mpr before), if_pos before]
  · rw [if_pos le_rfl, if_neg (lt_irrefl i), if_pos rfl, lead]
    field_simp
    ring
  · rw [if_pos (le_of_lt later), if_neg (not_lt_of_gt later), if_neg (ne_of_gt later), after later]
    field_simp
    ring

end LeastSquares
