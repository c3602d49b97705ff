import LeastSquares.Proofs.Json.Objects
import LeastSquares.Proofs.Shortest
import LeastSquares.Decimal.Layout

/-!
# How doubles are written

The text of a double spells its shortest digits, with zeros where the point is out of their reach or
with an exponent where it is far out. However they are laid out, they are read as one whole number
with an exponent, which is rounded to a double first and scaled by a power of ten then.
-/
namespace LeastSquares

open Json

namespace Decimal

/-- How a decimal is spelled in JSON. -/
def spelling (negative : Bool) (d : Decimal) : Spelling :=
  let digits := Nat.toDigits 10 d.digits
  let lead := d.exponent + digits.length - 1
  let fractional := (-d.exponent).toNat
  if 16 ≤ lead ∨ lead < -5 then
    ⟨negative, digits.take 1, digits.drop 1, some (lead < 0, Nat.toDigits 10 lead.natAbs)⟩
  else if 0 ≤ d.exponent then
    ⟨negative, digits ++ .replicate d.exponent.toNat '0', ['0'], none⟩
  else if digits.length ≤ fractional then
    ⟨negative, ['0'], .replicate (fractional - digits.length) '0' ++ digits, none⟩
  else
    ⟨negative, digits.take (digits.length - fractional), digits.drop (digits.length - fractional),
      none⟩

theorem spelling_negative (negative : Bool) (d : Decimal) :
    (d.spelling negative).negative = negative := by
  unfold spelling
  dsimp only
  split
  · rfl
  · split
    · rfl
    · split <;> rfl

theorem toList_zeros (n : Nat) : (Layout.zeros n).toList = .replicate n '0' := by
  rw [Layout.zeros, String.pushn_eq_repeat_push]
  induction n with
  | zero => rfl
  | succ n ih => rw [Nat.repeat, String.toList_push, ih, List.replicate_succ']

theorem toList_pointAfterFirst (digits : String) : (Layout.pointAfterFirst digits).toList =
    digits.toList.take 1 ++ Spelling.fractionChars (digits.toList.drop 1) := by
  have rest : (digits.drop 1).toString.toList = digits.toList.drop 1 := String.toList_copy_drop
  have first : (digits.take 1).toString.toList = digits.toList.take 1 := String.toList_copy_take
  have empty : (digits.drop 1).toString.isEmpty = (digits.toList.drop 1).isEmpty := by
    rw [← rest, Bool.eq_iff_iff, List.isEmpty_iff, String.toList_eq_nil_iff, String.isEmpty_iff]
  unfold Layout.pointAfterFirst
  dsimp only
  rw [empty, Spelling.fractionChars]
  split
  next single =>
    have short := List.drop_eq_nil_iff.mp (List.isEmpty_iff.mp single)
    rw [List.append_nil, List.take_of_length_le short]
  next more =>
    rw [String.toList_append, String.toList_append, rest, first, List.append_assoc]
    rfl

theorem toList_exponentText (e : Int) : (Layout.exponentText "+" e).toList =
    Spelling.exponentChars (some (decide (e < 0), Nat.toDigits 10 e.natAbs)) := by
  have mark : toString "e" = "e" := rfl
  have plus : toString "+" = "+" := rfl
  unfold Layout.exponentText
  cases e with
  | ofNat n =>
    have nonneg : ¬ (n : Int) < 0 := Int.not_lt.mpr (Int.natCast_nonneg n)
    simp [Int.repr, mark, plus, nonneg, Spelling.exponentChars]
  | negSucc n => simp [Int.repr, mark, Spelling.exponentChars]

theorem toList_take_append_drop (digits : String) (n : Nat) :
    ((digits.take n).toString ++ "." ++ (digits.drop n).toString).toList =
      digits.toList.take n ++ '.' :: digits.toList.drop n := by
  have rest : (digits.drop n).toString.toList = digits.toList.drop n := String.toList_copy_drop
  have first : (digits.take n).toString.toList = digits.toList.take n := String.toList_copy_take
  rw [String.toList_append, String.toList_append, rest, first, List.append_assoc]
  rfl

theorem chars_spelling (negative : Bool) (d : Decimal) : (d.spelling negative).chars =
    Spelling.signChars negative ++ (Layout.json.decimal d).toList := by
  have nonempty : Nat.toDigits 10 d.digits ≠ [] := Nat.toDigits_ne_nil
  have digits : (toString d.digits).toList = Nat.toDigits 10 d.digits := Nat.toList_repr
  have length : (toString d.digits).length = (toString d.digits).toList.length :=
    String.length_toList.symm
  unfold spelling Layout.decimal Layout.json
  dsimp only
  rw [← digits] at nonempty ⊢
  generalize (toString d.digits) = text at nonempty length ⊢
  simp only [Bool.or_eq_true, decide_eq_true_iff, length]
  by_cases far : 16 ≤ d.exponent + text.toList.length - 1 ∨
      d.exponent + text.toList.length - 1 < -5
  · rw [if_pos far, if_pos far, String.toList_append, toList_pointAfterFirst,
      toList_exponentText, List.append_assoc]
    rfl
  · simp only [if_neg far, Layout.positional, if_true, length]
    split
    next whole =>
      simp [Spelling.chars, Spelling.fractionChars, Spelling.exponentChars, toList_zeros]
    next fractional =>
      split
      next small =>
        have some : (List.replicate ((-d.exponent).toNat - text.toList.length) '0' ++
            text.toList).isEmpty = false := by
          simp [nonempty]
        simp [Spelling.chars, Spelling.fractionChars, Spelling.exponentChars, toList_zeros, some]
      next split =>
        have some : (text.toList.drop (text.toList.length - (-d.exponent).toNat)).isEmpty =
            false := by
          rw [List.isEmpty_eq_false_iff, ne_eq, List.drop_eq_nil_iff]
          omega
        rw [toList_take_append_drop]
        simp [Spelling.chars, Spelling.fractionChars, Spelling.exponentChars, some]

theorem spelling_wellFormed (negative : Bool) {d : Decimal} (positive : 0 < d.digits) :
    (d.spelling negative).WellFormed := by
  have nonempty : Nat.toDigits 10 d.digits ≠ [] := Nat.toDigits_ne_nil
  have all : ∀ c ∈ Nat.toDigits 10 d.digits, c.isDigit := Spelling.isDigit_toDigits
  have leading : (Nat.toDigits 10 d.digits).head? ≠ some '0' := fun zero =>
    positive.ne' (Spelling.eq_zero_of_head?_toDigits zero)
  have zeros (n : Nat) : ∀ c ∈ List.replicate n '0', c.isDigit := fun c member => by
    rw [List.eq_of_mem_replicate member]
    rfl
  unfold spelling
  dsimp only
  generalize Nat.toDigits 10 d.digits = cs at *
  obtain ⟨c, cs, rfl⟩ := List.exists_cons_of_ne_nil nonempty
  split
  · exact {
      whole := fun c member => all c (List.mem_of_mem_take member)
      nonempty := List.cons_ne_nil c []
      leading := fun zero => absurd zero leading
      fraction := fun c member => all c (List.mem_of_mem_drop member)
      exponent := by
        rintro _ ⟨⟩
        exact ⟨Spelling.isDigit_toDigits, Nat.toDigits_ne_nil⟩ }
  · split
    · exact {
        whole := fun c member => (List.mem_append.mp member).elim (all c) (zeros _ c)
        nonempty := List.cons_ne_nil c _
        leading := fun zero => absurd zero leading
        fraction := zeros 1
        exponent := nofun }
    · split
      · exact {
          whole := zeros 1
          nonempty := List.cons_ne_nil '0' []
          leading := fun _ => rfl
          fraction := fun c member => (List.mem_append.mp member).elim (zeros _ c) (all c)
          exponent := nofun }
      next split =>
        obtain ⟨k, before⟩ := Nat.exists_eq_add_of_le' (Nat.sub_pos_of_lt (Nat.not_le.mp split))
        rw [before]
        exact {
          whole := fun c member => all c (List.mem_of_mem_take member)
          nonempty := List.cons_ne_nil c _
          leading := fun zero => absurd zero leading
          fraction := fun c member => all c (List.mem_of_mem_drop member)
          exponent := nofun }

/-- The digits of a decimal as JSON gives them, and their exponent: a whole number below `1e16` is
written with a zero after the point. -/
def written (d : Decimal) : Significand :=
  if 0 ≤ d.exponent ∧ d.digits * 10 ^ d.exponent.toNat < 10 ^ 16 then
    ⟨d.digits * 10 ^ (d.exponent.toNat + 1), -1⟩
  else ⟨d.digits, d.exponent⟩

theorem lead_lt_iff {d : Decimal} (positive : 0 < d.digits) (whole : 0 ≤ d.exponent) :
    d.exponent + (Nat.toDigits 10 d.digits).length - 1 < 16 ↔
      d.digits * 10 ^ d.exponent.toNat < 10 ^ 16 := by
  have some : 0 < (Nat.toDigits 10 d.digits).length := Nat.length_toDigits_pos
  obtain ⟨e, exponent⟩ := Int.eq_ofNat_of_zero_le whole
  rw [exponent, Int.toNat_natCast]
  rcases Nat.lt_or_ge e 16 with short | long
  · have fits := @Nat.length_toDigits_le_iff 10 d.digits (16 - e) (by decide) (by omega)
    have scaled : 10 ^ 16 = 10 ^ (16 - e) * 10 ^ e := by
      rw [← pow_add, Nat.sub_add_cancel short.le]
    rw [scaled, Nat.mul_lt_mul_right (by positivity), ← fits]
    omega
  · refine iff_of_false (by omega) (Nat.not_lt.mpr ?_)
    calc 10 ^ 16 ≤ 10 ^ e := Nat.pow_le_pow_right (by decide) long
      _ ≤ d.digits * 10 ^ e := Nat.le_mul_of_pos_left _ positive

/-- The digits of a spelling and its exponent, whichever way the decimal is laid out. -/
theorem spelling_written (negative : Bool) {d : Decimal} (positive : 0 < d.digits) :
    Significand.mk (d.spelling negative).digits
      ((d.spelling negative).shift - (d.spelling negative).fraction.length) = d.written := by
  have value : Nat.ofDigitChars 10 (Nat.toDigits 10 d.digits) 0 = d.digits :=
    Nat.ofDigitChars_ten_toDigits
  have some : 0 < (Nat.toDigits 10 d.digits).length := Nat.length_toDigits_pos
  have lead := @lead_lt_iff d positive
  unfold spelling written
  dsimp only
  generalize Nat.toDigits 10 d.digits = cs at *
  by_cases far : 16 ≤ d.exponent + cs.length - 1 ∨ d.exponent + cs.length - 1 < -5
  · have exponential : ¬ (0 ≤ d.exponent ∧ d.digits * 10 ^ d.exponent.toNat < 10 ^ 16) := by
      rintro ⟨whole, below⟩
      rw [← lead whole] at below
      omega
    rw [if_pos far, if_neg exponential, Spelling.digits, List.take_append_drop, value,
      Spelling.shift_eq rfl, List.length_drop]
    refine congrArg _ ?_
    omega
  rw [if_neg far]
  by_cases whole : 0 ≤ d.exponent
  · have below := (lead whole).mp (by omega)
    rw [if_pos whole, if_pos ⟨whole, below⟩, Spelling.digits, Nat.ofDigitChars_append,
      Nat.ofDigitChars_append, value, Nat.ofDigitChars_replicate_zero]
    refine congrArg₂ _ ?_ rfl
    change 10 * (10 ^ d.exponent.toNat * d.digits) + 0 = _
    ring
  have fractional : ¬ (0 ≤ d.exponent ∧ d.digits * 10 ^ d.exponent.toNat < 10 ^ 16) :=
    fun both => whole both.1
  rw [if_neg whole, if_neg fractional]
  by_cases small : cs.length ≤ (-d.exponent).toNat
  · have zeros : Nat.ofDigitChars 10 (.replicate ((-d.exponent).toNat - cs.length) '0') 0 = 0 := by
      rw [Nat.ofDigitChars_replicate_zero, Nat.mul_zero]
    rw [if_pos small, Spelling.digits, Nat.ofDigitChars_append, Nat.ofDigitChars_append]
    change Significand.mk (Nat.ofDigitChars 10 cs (Nat.ofDigitChars 10 _ 0)) _ = _
    rw [zeros, value, List.length_append, List.length_replicate]
    refine congrArg _ ?_
    change (0 : Int) - _ = _
    omega
  · rw [if_neg small, Spelling.digits, List.take_append_drop, value, List.length_drop]
    refine congrArg _ ?_
    change (0 : Int) - _ = _
    omega

/-- The digits of a shortest decimal fit in 64 bits however it is laid out. -/
theorem Shortest.written_digits_lt {m : ℕ} {e : ℤ} {d : Decimal} (h : Shortest m e d) :
    d.written.digits < UInt64.size := by
  have limit : 2 ^ 57 < UInt64.size := by decide
  unfold written
  split
  next whole =>
    have scaled : d.digits * 10 ^ (d.exponent.toNat + 1) =
        d.digits * 10 ^ d.exponent.toNat * 10 := by ring
    have room : 10 ^ 16 * 10 < UInt64.size := by decide
    dsimp only
    omega
  next => exact h.digits_lt.trans limit

theorem Shortest.shift_bounded (negative : Bool) {m : ℕ} {e : ℤ} {d : Decimal}
    (h : Shortest m e d) : (d.spelling negative).shift.natAbs ≤ maxExponent := by
  have limit : (500 : ℕ) ≤ maxExponent := by decide
  have some : 0 < (Nat.toDigits 10 d.digits).length := Nat.length_toDigits_pos
  have short : (Nat.toDigits 10 d.digits).length ≤ 18 := by
    rw [Nat.length_toDigits_le_iff (by decide) (by decide)]
    exact h.digits_lt.trans (by norm_num)
  have least := h.least
  have most := h.most
  unfold spelling
  dsimp only
  split
  · rw [Spelling.shift_eq rfl]
    omega
  · split
    · exact Nat.zero_le _
    · split <;> exact Nat.zero_le _

end Decimal

/-! ### Reading back -/

namespace Double

/-- What the text of a double is read as, if it is not refused: the shortest digits as a whole
number, rounded to a double and scaled. -/
def reread (x : Float) : Option Float :=
  match Binary.ofFloat x with
  | .notANumber | .infinite => none
  | .finite 0 _ => some (if Binary.isNegative x then -0 else 0)
  | .finite m e =>
    (Decimal.shortest .toEven m e).written.toFloat?.map fun f =>
      if Binary.isNegative x then -f else f

theorem toList_sign (x : Float) : (if Binary.isNegative x then "-" else "").toList =
    Spelling.signChars (Binary.isNegative x) := by
  unfold Spelling.signChars
  split <;> rfl

/-- A number that fits is read as it is scaled. -/
theorem float?_numeral {s : Spelling} (h : s.WellFormed) (fits : s.digits < UInt64.size)
    (bounded : s.shift.natAbs ≤ maxExponent) : (Json.number s.numeral).float? =
      (Significand.toFloat? ⟨s.digits, s.shift - s.fraction.length⟩).map fun f =>
        if s.negative then -f else f := by
  rw [← Spelling.magnitude?_of_fits h fits bounded]
  rfl

theorem zero_wellFormed (negative : Bool) :
    Spelling.WellFormed ⟨negative, ['0'], ['0'], none⟩ := by
  have zero : ∀ c ∈ ['0'], c.isDigit := List.forall_mem_singleton.mpr rfl
  exact ⟨zero, List.cons_ne_nil _ _, fun _ => rfl, zero, nofun⟩

/-- The text of a double is that of one number, or null if the double is not finite. -/
theorem spells_text (x : Float) :
    ∃ t v, Spells (Layout.json.text x).toList t v ∧ v.float? = reread x := by
  unfold Layout.text reread
  dsimp only
  cases parts : Binary.ofFloat x with
  | notANumber => exact ⟨_, _, spells_null, rfl⟩
  | infinite =>
    have text : (if Binary.isNegative x then Layout.json.minusInfinite else Layout.json.infinite) =
        "null" := ite_self _
    exact ⟨_, _, text ▸ spells_null, rfl⟩
  | finite m e =>
    rcases Nat.eq_zero_or_pos m with rfl | positive
    · have h := zero_wellFormed (Binary.isNegative x)
      have zero : Significand.toFloat? ⟨0, -1⟩ = some 0 := by decide +kernel
      have room : 0 < UInt64.size := by decide
      have text : Spelling.chars ⟨Binary.isNegative x, ['0'], ['0'], none⟩ =
          ((if Binary.isNegative x then "-" else "") ++ "0.0").toList := by
        rw [String.toList_append, toList_sign]
        rfl
      have read := float?_numeral h room (Nat.zero_le _)
      exact ⟨_, _, text ▸ spells_number h, read.trans (congrArg _ zero)⟩
    · obtain ⟨m, rfl⟩ := Nat.exists_eq_add_of_le' positive
      have canonical := (isFinite_of_ofFloat parts positive).canonical
      have found := Decimal.shortest_spec .toEven positive canonical.1 canonical.2
      have h := Decimal.spelling_wellFormed (Binary.isNegative x) found.digits_pos
      have written := Decimal.spelling_written (Binary.isNegative x) found.digits_pos
      have fits := found.written_digits_lt
      have spelled := spells_number h
      rw [Decimal.chars_spelling, ← toList_sign, ← String.toList_append] at spelled
      rw [← written] at fits
      refine ⟨_, _, spelled, (float?_numeral h fits (found.shift_bounded _)).trans ?_⟩
      rw [written, Decimal.spelling_negative]
      rfl

end Double

end LeastSquares
