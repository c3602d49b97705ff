import Mathlib.Data.List.Basic
import LeastSquares.Json.Number

/-!
# How numbers are spelled

A number is spelled by its sign, the digits before and after the point, and an exponent. What is
read of a spelling that nothing runs on from is just these parts; and as long as its digits fit in
64 bits they are all taken, so that the number is the whole number they form, scaled by the
exponent less the number of digits after the point.
-/
namespace LeastSquares.Json

/-! ### Spans of digits -/

/-- What follows does not start with a digit. -/
def NoDigit (rest : List Char) : Prop :=
  ∀ c ∈ rest.head?, ¬ c.isDigit

/-- The values of the digits of a text. -/
def digitValues (cs : List Char) : List Nat :=
  cs.filterMap digit?

theorem spanDigits_append {cs rest : List Char} (digits : ∀ c ∈ cs, c.isDigit)
    (ends : NoDigit rest) : spanDigits (cs ++ rest) = (digitValues cs, rest) := by
  have none : rest.takeWhile Char.isDigit = [] ∧ rest.dropWhile Char.isDigit = rest := by
    cases rest with
    | nil => exact ⟨rfl, rfl⟩
    | cons c rest =>
      have first := ends c rfl
      exact ⟨List.takeWhile_cons_of_neg first, List.dropWhile_cons_of_neg first⟩
  rw [spanDigits, List.takeWhile_append_of_pos digits, List.dropWhile_append_of_pos digits,
    none.1, none.2, List.append_nil]
  rfl

theorem digitValues_cons {c : Char} (digit : c.isDigit) (cs : List Char) :
    digitValues (c :: cs) = (c.toNat - '0'.toNat) :: digitValues cs :=
  List.filterMap_cons_some (if_pos digit)

theorem eq_zero_of_value {c : Char} (digit : c.isDigit) (zero : c.toNat - '0'.toNat = 0) :
    c = '0' := by
  obtain ⟨least, -⟩ := Char.isDigit_iff_toNat.mp digit
  exact Char.toNat_inj.mp (Nat.le_antisymm (Nat.le_of_sub_eq_zero zero) least)

theorem length_digitValues {cs : List Char} (digits : ∀ c ∈ cs, c.isDigit) :
    (digitValues cs).length = cs.length := by
  induction cs with
  | nil => rfl
  | cons c cs ih =>
    obtain ⟨first, later⟩ := List.forall_mem_cons.mp digits
    rw [digitValues_cons first, List.length_cons, ih later, List.length_cons]

theorem someDigits?_append {cs rest : List Char} (digits : ∀ c ∈ cs, c.isDigit)
    (nonempty : cs ≠ []) (ends : NoDigit rest) :
    someDigits? (cs ++ rest) = some (digitValues cs, rest) := by
  cases cs with
  | nil => exact absurd rfl nonempty
  | cons c cs =>
    rw [someDigits?, spanDigits_append digits ends,
      digitValues_cons (digits c List.mem_cons_self)]

/-! ### Spellings -/

/-- The parts of a number as they are spelled. There is no point if no digits follow it. -/
structure Spelling where
  negative : Bool
  whole : List Char
  fraction : List Char
  /-- Whether the exponent is negative, and its digits. -/
  exponent : Option (Bool × List Char)

namespace Spelling

def signChars (negative : Bool) : List Char :=
  if negative then ['-'] else []

def fractionChars (digits : List Char) : List Char :=
  if digits.isEmpty then [] else '.' :: digits

def exponentChars : Option (Bool × List Char) → List Char
  | none => []
  | some (negative, digits) => 'e' :: (if negative then '-' else '+') :: digits

def chars (s : Spelling) : List Char :=
  signChars s.negative ++ (s.whole ++ (fractionChars s.fraction ++ exponentChars s.exponent))

def numeral (s : Spelling) : Numeral :=
  ⟨s.negative, digitValues s.whole, digitValues s.fraction,
    s.exponent.map fun e => (e.1, digitValues e.2)⟩

/-- A zero before the point stands alone, and no part but the fraction is empty. -/
structure WellFormed (s : Spelling) : Prop where
  whole : ∀ c ∈ s.whole, c.isDigit
  nonempty : s.whole ≠ []
  leading : s.whole.head? = some '0' → s.whole = ['0']
  fraction : ∀ c ∈ s.fraction, c.isDigit
  exponent : ∀ e ∈ s.exponent, (∀ c ∈ e.2, c.isDigit) ∧ e.2 ≠ []

/-- What follows cannot be taken for more of a number. -/
def Ends (rest : List Char) : Prop :=
  ∀ c ∈ rest.head?, ¬ c.isDigit ∧ c ≠ '.' ∧ c ≠ 'e' ∧ c ≠ 'E'

theorem Ends.noDigit {rest : List Char} (h : Ends rest) : NoDigit rest :=
  fun c first => (h c first).1

theorem noDigit_exponentChars (e : Option (Bool × List Char)) {rest : List Char}
    (ends : Ends rest) : NoDigit (exponentChars e ++ rest) := by
  cases e with
  | none => exact ends.noDigit
  | some e =>
    intro c first
    obtain rfl : 'e' = c := Option.some.inj first
    decide

theorem noPoint_exponentChars (e : Option (Bool × List Char)) {rest : List Char}
    (ends : Ends rest) : ∀ c ∈ (exponentChars e ++ rest).head?, c ≠ '.' := by
  cases e with
  | none => exact fun c first => (ends c first).2.1
  | some e =>
    intro c first
    obtain rfl : 'e' = c := Option.some.inj first
    decide

theorem noDigit_fractionChars (digits : List Char) {rest : List Char} (ends : NoDigit rest) :
    NoDigit (fractionChars digits ++ rest) := by
  cases digits with
  | nil => exact ends
  | cons d digits =>
    intro c first
    obtain rfl : '.' = c := Option.some.inj first
    decide

theorem exponent?_append {e : Option (Bool × List Char)} {rest : List Char}
    (digits : ∀ parts ∈ e, (∀ c ∈ parts.2, c.isDigit) ∧ parts.2 ≠ []) (ends : Ends rest) :
    exponent? (exponentChars e ++ rest) =
      some (e.map fun e => (e.1, digitValues e.2), rest) := by
  cases e with
  | none =>
    cases rest with
    | nil => rfl
    | cons c rest =>
      obtain ⟨-, -, lower, upper⟩ := ends c rfl
      exact if_neg (by simp [lower, upper])
  | some parts =>
    obtain ⟨negative, cs⟩ := parts
    obtain ⟨all, nonempty⟩ := digits (negative, cs) rfl
    have read := someDigits?_append all nonempty ends.noDigit
    cases negative with
    | true => simp [exponent?, exponentChars, read]
    | false => simp [exponent?, exponentChars, read]

theorem fraction?_append {cs rest : List Char} (digits : ∀ c ∈ cs, c.isDigit)
    (ends : NoDigit rest) (noPoint : ∀ c ∈ rest.head?, c ≠ '.') :
    fraction? (fractionChars cs ++ rest) = some (digitValues cs, rest) := by
  cases cs with
  | nil =>
    cases rest with
    | nil => rfl
    | cons c rest =>
      have other := noPoint c rfl
      unfold fraction?
      split
      next first => exact absurd (List.head_eq_of_cons_eq first) other
      next => rfl
  | cons c cs => exact someDigits?_append digits (List.cons_ne_nil c cs) ends

theorem whole?_append {cs rest : List Char} (digits : ∀ c ∈ cs, c.isDigit) (nonempty : cs ≠ [])
    (leading : cs.head? = some '0' → cs = ['0']) (ends : NoDigit rest) :
    whole? (cs ++ rest) = some (digitValues cs, rest) := by
  rw [whole?, someDigits?_append digits nonempty ends]
  split
  next d ds rest' needless =>
    obtain ⟨c, cs, rfl⟩ := List.exists_cons_of_ne_nil nonempty
    have values : digitValues (c :: cs) = 0 :: d :: ds :=
      (Prod.ext_iff.mp (Option.some.inj needless)).1
    rw [digitValues_cons (digits c List.mem_cons_self)] at values
    have zero : c = '0' :=
      eq_zero_of_value (digits c List.mem_cons_self) (List.head_eq_of_cons_eq values)
    rw [zero] at leading
    obtain ⟨-, alone⟩ := List.cons.inj (leading rfl)
    rw [alone] at values
    cases List.tail_eq_of_cons_eq values
  next => rfl

/-- What is read of a spelling is what was spelled. -/
theorem numeral?_chars {s : Spelling} (h : s.WellFormed) {rest : List Char} (ends : Ends rest) :
    numeral? (s.chars ++ rest) = some (s.numeral, rest) := by
  obtain ⟨negative, whole, fraction, exponent⟩ := s
  obtain ⟨digits, nonempty, leading, fractionDigits, exponentDigits⟩ := h
  have afterWhole := noDigit_fractionChars fraction (noDigit_exponentChars exponent ends)
  have readWhole := whole?_append digits nonempty leading afterWhole
  have readFraction := fraction?_append fractionDigits (noDigit_exponentChars exponent ends)
    (noPoint_exponentChars exponent ends)
  have readExponent := exponent?_append exponentDigits ends
  dsimp only at readWhole readFraction readExponent
  simp only [chars, List.append_assoc]
  cases negative with
  | true => simp [numeral?, signChars, readWhole, readFraction, readExponent, numeral]
  | false =>
    obtain ⟨c, cs, rfl⟩ := List.exists_cons_of_ne_nil nonempty
    have unsigned : c ≠ '-' := by
      rintro rfl
      exact absurd (digits '-' List.mem_cons_self) (by decide)
    rw [List.cons_append] at readWhole
    simp [numeral?, signChars, unsigned, readWhole, readFraction, readExponent, numeral]

end Spelling

/-! ### Digits as numbers -/

/-- The number that digits form after those of `v`. -/
def extendBy (v : Nat) (ds : List Nat) : Nat :=
  ds.foldl (fun v d => v * 10 + d) v

theorem le_extendBy (v : Nat) (ds : List Nat) : v ≤ extendBy v ds := by
  induction ds generalizing v with
  | nil => exact Nat.le_refl v
  | cons d ds ih => exact Nat.le_trans (by omega) (ih (v * 10 + d))

/-- The number that the digits of a text form. -/
theorem extendBy_digitValues {cs : List Char} (digits : ∀ c ∈ cs, c.isDigit) (v : Nat) :
    extendBy v (digitValues cs) = Nat.ofDigitChars 10 cs v := by
  induction cs generalizing v with
  | nil => rfl
  | cons c cs ih =>
    obtain ⟨first, later⟩ := List.forall_mem_cons.mp digits
    rw [digitValues_cons first, Nat.ofDigitChars_cons, ← ih later, Nat.mul_comm 10 v]
    rfl

theorem takes_of_fits {v d : Nat} {k : Int} {ds : List Nat}
    (fits : extendBy v (d :: ds) < UInt64.size) : Significand.takes ⟨v, k⟩ d :=
  decide_eq_true (Nat.lt_of_le_of_lt (le_extendBy (v * 10 + d) ds) fits)

/-- Digits that fit are all taken. -/
theorem addWhole_of_fits {v : Nat} {k : Int} {ds : List Nat} (fits : extendBy v ds < UInt64.size) :
    Significand.addWhole ⟨v, k⟩ ds = ⟨extendBy v ds, k⟩ := by
  induction ds generalizing v with
  | nil => rfl
  | cons d ds ih =>
    rw [Significand.addWhole, if_pos (takes_of_fits fits), ih fits]
    rfl

theorem addFraction_of_fits {v : Nat} {k : Int} {ds : List Nat}
    (fits : extendBy v ds < UInt64.size) :
    Significand.addFraction ⟨v, k⟩ ds = ⟨extendBy v ds, k - ds.length⟩ := by
  induction ds generalizing v k with
  | nil => exact congrArg _ (Int.sub_zero k).symm
  | cons d ds ih =>
    rw [Significand.addFraction, if_pos (takes_of_fits fits), ih fits, List.length_cons]
    have exponents : k - 1 - (ds.length : Int) = k - (ds.length + 1 : Nat) := by omega
    exact congrArg (Significand.mk _) exponents

namespace Spelling

/-- The number that the digits before and after the point form together. -/
def digits (s : Spelling) : Nat :=
  Nat.ofDigitChars 10 (s.whole ++ s.fraction) 0

/-- The exponent as a number, zero if there is none. -/
def shift (s : Spelling) : Int :=
  match s.exponent with
  | none => 0
  | some (negative, cs) =>
    if negative then -(Nat.ofDigitChars 10 cs 0) else Nat.ofDigitChars 10 cs 0

theorem shift_eq {s : Spelling} {e : Int}
    (exponent : s.exponent = some (decide (e < 0), Nat.toDigits 10 e.natAbs)) : s.shift = e := by
  rw [shift, exponent]
  dsimp only
  rw [Nat.ofDigitChars_ten_toDigits]
  split
  next negative =>
    have below := of_decide_eq_true negative
    omega
  next nonneg =>
    have above := of_decide_eq_false (Bool.eq_false_iff.mpr nonneg)
    omega

theorem significand_of_fits {s : Spelling} (h : s.WellFormed) (fits : s.digits < UInt64.size) :
    s.numeral.significand = ⟨s.digits, -s.fraction.length⟩ := by
  have value : extendBy (extendBy 0 (digitValues s.whole)) (digitValues s.fraction) = s.digits := by
    rw [extendBy_digitValues h.whole, extendBy_digitValues h.fraction, digits,
      Nat.ofDigitChars_append]
  rw [← value] at fits
  have whole := Nat.lt_of_le_of_lt (le_extendBy _ _) fits
  change (Significand.addWhole ⟨0, 0⟩ (digitValues s.whole)).addFraction
    (digitValues s.fraction) = _
  rw [addWhole_of_fits whole, addFraction_of_fits fits, value, length_digitValues h.fraction,
    Int.zero_sub]

/-- A number whose digits fit is the number they form, scaled. -/
theorem magnitude?_of_fits {s : Spelling} (h : s.WellFormed) (fits : s.digits < UInt64.size)
    (bounded : s.shift.natAbs ≤ maxExponent) : s.numeral.magnitude? =
      Significand.toFloat? ⟨s.digits, s.shift - s.fraction.length⟩ := by
  rw [Numeral.magnitude?, significand_of_fits h fits]
  obtain ⟨negative, whole, fraction, exponent⟩ := s
  cases exponent with
  | none => simp [numeral, shift]
  | some parts =>
    obtain ⟨below, cs⟩ := parts
    have value : (digitValues cs).foldl (fun e d => e * 10 + d) 0 = Nat.ofDigitChars 10 cs 0 :=
      extendBy_digitValues (h.exponent _ rfl).1 0
    have small : Nat.ofDigitChars 10 cs 0 ≤ maxExponent := by
      cases below <;> simpa [shift] using bounded
    simp [numeral, value, small, shift, Int.add_comm, Int.sub_eq_add_neg]

/-! ### Whole numbers -/

/-- A whole number as it is printed. -/
def ofInt (i : Int) : Spelling :=
  ⟨i < 0, Nat.toDigits 10 i.natAbs, [], none⟩

theorem isDigit_toDigits {n : Nat} : ∀ c ∈ Nat.toDigits 10 n, c.isDigit :=
  fun _ => Nat.isDigit_of_mem_toDigits (by decide) (by decide)

/-- Only the digits of zero start with a zero. -/
theorem eq_zero_of_head?_toDigits {n : Nat} (zero : (Nat.toDigits 10 n).head? = some '0') :
    n = 0 := by
  induction n using Nat.strongRecOn with
  | ind n ih =>
    rw [Nat.toDigits_eq_if (by decide)] at zero
    split at zero
    next single => exact Nat.digitChar_eq_zero.mp (Option.some.inj zero)
    next more =>
      rw [List.head?_append_of_ne_nil _ Nat.toDigits_ne_nil] at zero
      have leading := ih (n / 10) (by omega) zero
      omega

theorem toDigits_eq_zero_of_head? {n : Nat} (zero : (Nat.toDigits 10 n).head? = some '0') :
    Nat.toDigits 10 n = ['0'] := by
  rw [eq_zero_of_head?_toDigits zero]
  rfl

theorem ofInt_wellFormed (i : Int) : (ofInt i).WellFormed where
  whole := isDigit_toDigits
  nonempty := Nat.toDigits_ne_nil
  leading := toDigits_eq_zero_of_head?
  fraction := nofun
  exponent := nofun

theorem chars_ofNat (n : Nat) : (ofInt n).chars = (toString n).toList := by
  have nonneg : ¬ (n : Int) < 0 := Int.not_lt.mpr (Int.natCast_nonneg n)
  simp [chars, ofInt, signChars, fractionChars, exponentChars, nonneg]

theorem chars_ofInt (i : Int) : (ofInt i).chars = (toString i).toList := by
  cases i with
  | ofNat n => exact chars_ofNat n
  | negSucc n =>
    have negative : Int.negSucc n < 0 := Int.negSucc_lt_zero n
    simp [chars, ofInt, signChars, fractionChars, exponentChars, negative,
      Int.toString_eq_repr, Int.repr]

theorem toInt?_ofInt (i : Int) : (ofInt i).numeral.toInt? = some i := by
  have value : (digitValues (Nat.toDigits 10 i.natAbs)).foldl (fun v d => v * 10 + d) 0 =
      i.natAbs :=
    (extendBy_digitValues isDigit_toDigits 0).trans Nat.ofDigitChars_ten_toDigits
  simp only [Numeral.toInt?, numeral, ofInt, value]
  change (if decide (i < 0) then if i.natAbs = 0 then none else some (-(i.natAbs : Int))
    else some (i.natAbs : Int)) = some i
  by_cases negative : i < 0
  · have magnitude : -(i.natAbs : Int) = i := by omega
    rw [if_pos (decide_eq_true negative), if_neg (by omega), magnitude]
  · have magnitude : (i.natAbs : Int) = i := by omega
    rw [if_neg (by rwa [decide_eq_true_iff]), magnitude]

end Spelling

end LeastSquares.Json
