import Mathlib
import LeastSquares.Norm

/-!
# Comparisons in double precision

Numbers in double precision compare as their places in a linear order do: by sign and by whether
they are infinite, then by exponent, then by mantissa, both zeros having one place. What is not a
number fails every comparison.
-/
namespace LeastSquares.Double

open Float.Model

/-- What decides how a number compares: its class, then its exponent and mantissa, turned around if
it is negative. -/
def key : UnpackedFloat → ℤ × ℤ × ℤ
  | .notANumber | .zero _ => (0, 0, 0)
  | .infinity .negative => (-2, 0, 0)
  | .finite .negative mantissa exponent _ => (-1, -exponent, -mantissa)
  | .finite .positive mantissa exponent _ => (1, exponent, mantissa)
  | .infinity .positive => (2, 0, 0)

/-- The place of a number among all numbers. -/
def place (u : UnpackedFloat) : ℤ ×ₗ ℤ ×ₗ ℤ :=
  toLex ((key u).1, toLex (key u).2)

/-! ### Places -/

theorem compare_place (u v : UnpackedFloat) : compare (place u) (place v) =
    (compare (key u).1 (key v).1).then
      ((compare (key u).2.1 (key v).2.1).then (compare (key u).2.2 (key v).2.2)) := by
  simp only [place, Prod.Lex.compare_def, compareLex, compareOn, ofLex_toLex]

theorem compare_cast (m m' : ℕ) : compare (m : ℤ) m' = compare m m' := by
  rw [← cmp_eq_compare, ← cmp_eq_compare]
  exact Nat.strictMono_cast.cmp_map_eq m m'

theorem compare_neg (a b : ℤ) : compare (-a) (-b) = (compare a b).swap := by
  rw [← cmp_eq_compare, ← cmp_eq_compare, cmp_swap]
  exact StrictAnti.cmp_map_eq (fun a b less => Int.neg_lt_neg less) a b

/-- Two numbers compare as their places do. -/
theorem compare_eq {u v : UnpackedFloat} (left : u.isNaN = false) (right : v.isNaN = false) :
    u.compare v = some (compare (place u) (place v)) := by
  rw [compare_place]
  cases u with
  | notANumber => cases left
  | infinity s =>
    cases v with
    | notANumber => cases right
    | infinity s' => cases s <;> cases s' <;> rfl
    | zero s' => cases s <;> rfl
    | finite s' m' e' pos' => cases s <;> cases s' <;> rfl
  | zero s =>
    cases v with
    | notANumber => cases right
    | infinity s' => cases s' <;> rfl
    | zero s' => rfl
    | finite s' m' e' pos' => cases s' <;> rfl
  | finite s m e pos =>
    cases v with
    | notANumber => cases right
    | infinity s' => cases s <;> cases s' <;> rfl
    | zero s' => cases s <;> rfl
    | finite s' m' e' pos' =>
      -- Only within a class do exponents and mantissas count.
      cases s with
      | negative =>
        cases s' with
        | negative =>
          simp only [UnpackedFloat.compare, key, compare_neg, compare_cast, ← Ordering.swap_then]
          simp
        | positive => rfl
      | positive =>
        cases s' with
        | negative => rfl
        | positive =>
          simp only [UnpackedFloat.compare, key, compare_cast]
          simp

/-- What is not a number does not compare. -/
theorem compare_eq_none {u v : UnpackedFloat} (undefined : u.isNaN ∨ v.isNaN) :
    u.compare v = none := by
  rcases undefined with left | right
  · cases u with
    | notANumber => rfl
    | _ => cases left
  · cases v with
    | notANumber => cases u <;> rfl
    | _ => cases right

/-! ### The order of numbers -/

/-- The place of a number in double precision. -/
def position (x : Float) : ℤ ×ₗ ℤ ×ₗ ℤ :=
  place x.toModel.unpack

theorem lt_iff (x y : Float) :
    x < y ↔ x.isNaN = false ∧ y.isNaN = false ∧ position x < position y := by
  have decided : x < y ↔ x.toModel.unpack.compare y.toModel.unpack = some .lt :=
    decide_eq_true_iff.trans beq_iff_eq
  rw [decided]
  by_cases defined : x.isNaN = false ∧ y.isNaN = false
  · rw [compare_eq defined.1 defined.2, Option.some_inj, compare_lt_iff_lt]
    exact ⟨fun less => ⟨defined.1, defined.2, less⟩, fun ⟨_, _, less⟩ => less⟩
  · have undefined : x.isNaN ∨ y.isNaN := by
      simpa only [not_and_or, Bool.not_eq_false] using defined
    rw [compare_eq_none undefined]
    exact iff_of_false nofun fun ⟨left, right, _⟩ => defined ⟨left, right⟩

theorem le_iff (x y : Float) :
    x ≤ y ↔ x.isNaN = false ∧ y.isNaN = false ∧ position x ≤ position y := by
  have decided : x ≤ y ↔ (x.toModel.unpack.compare y.toModel.unpack).any Ordering.isLE :=
    decide_eq_true_iff
  rw [decided]
  by_cases defined : x.isNaN = false ∧ y.isNaN = false
  · rw [compare_eq defined.1 defined.2, Option.any_some, Ordering.isLE_iff_ne_gt, ← ne_eq,
      compare_le_iff_le]
    exact ⟨fun le => ⟨defined.1, defined.2, le⟩, fun ⟨_, _, le⟩ => le⟩
  · have undefined : x.isNaN ∨ y.isNaN := by
      simpa only [not_and_or, Bool.not_eq_false] using defined
    rw [compare_eq_none undefined]
    exact iff_of_false nofun fun ⟨left, right, _⟩ => defined ⟨left, right⟩

/-- A number fails a comparison by passing the opposite one; what is not a number fails both. -/
theorem not_le_iff (x y : Float) : ¬ x ≤ y ↔ y < x ∨ x.isNaN ∨ y.isNaN := by
  rw [le_iff, lt_iff]
  cases x.isNaN <;> cases y.isNaN <;> simp

theorem not_lt_iff (x y : Float) : ¬ x < y ↔ y ≤ x ∨ x.isNaN ∨ y.isNaN := by
  rw [le_iff, lt_iff]
  cases x.isNaN <;> cases y.isNaN <;> simp

theorem le_trans {x y z : Float} (h : x ≤ y) (h' : y ≤ z) : x ≤ z := by
  rw [le_iff] at *
  exact ⟨h.1, h'.2.1, h.2.2.trans h'.2.2⟩

theorem le_of_lt {x y : Float} (h : x < y) : x ≤ y := by
  rw [lt_iff] at h
  rw [le_iff]
  exact ⟨h.1, h.2.1, h.2.2.le⟩

theorem le_self {x : Float} (number : x.isNaN = false) : x ≤ x := by
  rw [le_iff]
  exact ⟨number, number, le_rfl⟩

/-- The larger of a number and anything else is a number, and at least each of them that is one. -/
theorem larger_spec {x : Float} (number : x.isNaN = false) (y : Float) :
    (larger x y).isNaN = false ∧ x ≤ larger x y ∧ (y.isNaN = false → y ≤ larger x y) := by
  change (if y.isNaN || x > y then x else y).isNaN = false ∧
    x ≤ (if y.isNaN || x > y then x else y) ∧
      (y.isNaN = false → y ≤ if y.isNaN || x > y then x else y)
  split
  next kept =>
    rw [Bool.or_eq_true, decide_eq_true_iff] at kept
    refine ⟨number, le_self number, fun right => ?_⟩
    rw [right, or_iff_right Bool.false_ne_true] at kept
    exact le_of_lt kept
  next taken =>
    rw [Bool.or_eq_true, decide_eq_true_iff, not_or, Bool.not_eq_true] at taken
    refine ⟨taken.1, ?_, fun _ => le_self taken.1⟩
    rcases (not_lt_iff y x).mp taken.2 with le | right | left
    · exact le
    · rw [taken.1] at right
      cases right
    · rw [number] at left
      cases left

end LeastSquares.Double
