import Mathlib
import LeastSquares.Decimal.Digits

/-!
# Rounding in double precision

Every operation on doubles unpacks its operands, finds the mantissa of the exact result together
with what is left over, rounds that to the nearest mantissa of at most 53 bits, ties to even, and
packs it again. Rounding bit after bit is rounding a quotient once, and packing loses nothing but
numbers that are too large.
-/
namespace LeastSquares.Double

open Float.Model UnpackedFloat
open Decimal (roundQuotient)

/-! ### Quotients and what is left of them -/

/-- A quotient cut off below its units, with the two bits that tell how to round it. -/
def extended (num den : ℕ) : ExtendedMantissa :=
  .ofMantissaAndAccuracy (num / den) (accuracyOfFraction (num % den) den)

theorem extended_eq (num : ℕ) {den : ℕ} (positive : 0 < den) : extended num den =
    ⟨num / den, decide (den ≤ 2 * (num % den)),
      decide (num % den ≠ 0 ∧ 2 * (num % den) ≠ den)⟩ := by
  unfold extended accuracyOfFraction
  by_cases exact : num % den = 0
  · simp [exact, ExtendedMantissa.ofMantissaAndAccuracy, positive.ne']
  · rw [if_neg exact]
    rcases lt_trichotomy (2 * (num % den)) den with less | same | more
    · rw [Nat.compare_eq_lt.mpr less]
      simp [ExtendedMantissa.ofMantissaAndAccuracy, exact, less, less.ne]
    · rw [Nat.compare_eq_eq.mpr same]
      simp [ExtendedMantissa.ofMantissaAndAccuracy, same]
    · rw [Nat.compare_eq_gt.mpr more]
      simp [ExtendedMantissa.ofMantissaAndAccuracy, exact, more.le, more.ne']

/-- A whole number is a quotient that leaves nothing. -/
theorem extended_one (m : ℕ) : extended m 1 = .ofMantissaAndAccuracy m .exact := by
  rw [extended, Nat.div_one, Nat.mod_one]
  rfl

theorem shiftRightOne_extended (num : ℕ) {den : ℕ} (positive : 0 < den) :
    (extended num den).shiftRightOne = extended num (den * 2) := by
  have below : num % den < den := Nat.mod_lt num positive
  have rest : num % (den * 2) = num % den + den * (num / den % 2) := Nat.mod_mul
  rw [extended_eq num positive, extended_eq num (by omega), ExtendedMantissa.shiftRightOne,
    Nat.div_div_eq_div_mul, ExtendedMantissa.mk.injEq, rest]
  -- The bit shifted out tells whether the half of the new denominator is reached.
  rcases Nat.mod_two_eq_zero_or_one (num / den) with even | odd
  · rw [even, Nat.mul_zero, Nat.add_zero]
    refine ⟨rfl, ?_, ?_⟩ <;> simp only [bne_self_eq_false, ← Bool.decide_or, eq_comm (a := false),
      decide_eq_false_iff_not, decide_eq_decide] <;> omega
  · rw [odd, Nat.mul_one]
    refine ⟨rfl, ?_, ?_⟩ <;> simp only [Nat.reduceBneDiff, ← Bool.decide_or, eq_comm (a := true),
      decide_eq_true_iff, decide_eq_decide] <;> omega

theorem shiftRight_extended (num : ℕ) {den : ℕ} (positive : 0 < den) (n : ℕ) :
    extended num den >>> n = extended num (den * 2 ^ n) := by
  change Nat.repeat ExtendedMantissa.shiftRightOne n (extended num den) = _
  induction n with
  | zero => simp [Nat.repeat]
  | succ n ih =>
    rw [Nat.repeat, ih, shiftRightOne_extended num (by positivity), pow_succ, mul_assoc]

theorem mantissa_extended (num den : ℕ) : (extended num den).mantissa = num / den := by
  unfold extended ExtendedMantissa.ofMantissaAndAccuracy
  split <;> rfl

theorem roundedMantissa_extended (num : ℕ) {den : ℕ} (positive : 0 < den) :
    (extended num den).roundedMantissa = roundQuotient .toEven num den := by
  rw [extended_eq num positive, ExtendedMantissa.roundedMantissa, roundQuotient]
  by_cases exact : num % den = 0
  · simp [exact, positive, positive.ne', ExtendedMantissa.accuracy, Accuracy.roundToNearestEven]
  · rcases lt_trichotomy (2 * (num % den)) den with less | same | more
    · simp [exact, less, less.not_ge, less.ne, ExtendedMantissa.accuracy,
        Accuracy.roundToNearestEven]
    · simp [same, ExtendedMantissa.accuracy, Accuracy.roundToNearestEven]
    · simp [exact, more, more.le, more.ne', more.not_gt, ExtendedMantissa.accuracy,
        Accuracy.roundToNearestEven]

/-! ### The nearest mantissa -/

/-- A rounded quotient is one of the two whole numbers next to it. -/
theorem roundQuotient_bounds (tie : Tie) (num den : ℕ) : num / den ≤ roundQuotient tie num den ∧
    roundQuotient tie num den ≤ num / den + 1 := by
  unfold roundQuotient
  dsimp only
  split
  · omega
  · split
    · omega
    · cases tie <;> dsimp only <;> omega

theorem roundQuotient_one (tie : Tie) (n : ℕ) : roundQuotient tie n 1 = n := by
  simp [roundQuotient, Nat.mod_one]

/-- The least exponent whose mantissas reach up to that of a number of this magnitude. -/
def target (m : ℕ) (e : ℤ) : ℤ := max (m.log2 + 1 + e - 53) (-1074)

theorem least_le_target (m : ℕ) (e : ℤ) : -1074 ≤ target m e :=
  le_max_right _ _

theorem targetExponent_eq (m : ℕ) (e : ℤ) :
    Format.binary64.targetExponent (totalExponent m e) = target m e := rfl

/-- A mantissa rounded up to a power of two is one bit too long. -/
def settled (s : Sign) (m : ℕ) (e : ℤ) : UnpackedFloat :=
  if zero : m = 0 then .zero s
  else if m = 2 ^ 53 then .finite s (2 ^ 52) (e + 1) (Nat.two_pow_pos 52)
  else .finite s m e (Nat.pos_of_ne_zero zero)

theorem shiftToTargetExponent_exact {m : ℕ} {e : ℤ} (bounded : m ≤ 2 ^ 53) (least : -1074 ≤ e) :
    shiftToTargetExponent .binary64 m e .exact =
      if m = 2 ^ 53 then (extended (2 ^ 53) 2, e + 1) else (extended m 1, e) := by
  rw [shiftToTargetExponent, targetExponent_eq, shiftToExponent, ← extended_one]
  split
  next carried =>
    have next : target m e = e + 1 := by
      rw [target, carried, Nat.log2_two_pow]
      omega
    rw [next, add_sub_cancel_left, carried]
    exact Prod.ext (shiftRight_extended (2 ^ 53) one_pos 1) rfl
  next short =>
    have log : m.log2 ≤ 52 := by
      by_cases zero : m = 0
      · rw [zero, Nat.log2_zero]
        omega
      · exact Nat.lt_succ_iff.mp ((Nat.log2_lt zero).mpr (by omega))
    have there : (target m e - e).toNat = 0 := by
      rw [target]
      omega
    rw [there]
    exact Prod.ext rfl (add_zero e)

/-- Rounding a quotient whose units are not above the target: one rounded quotient in units of the
target. -/
theorem roundWithAccuracy_eq (s : Sign) (num : ℕ) {den : ℕ} (positive : 0 < den) {e : ℤ}
    (le : e ≤ target (num / den) e) :
    roundWithAccuracy .binary64 s (num / den) e (accuracyOfFraction (num % den) den) =
      settled s (roundQuotient .toEven num (den * 2 ^ (target (num / den) e - e).toNat))
        (target (num / den) e) := by
  set shift := (target (num / den) e - e).toNat with shiftIs
  have scaled : 0 < den * 2 ^ shift := by positivity
  have first : shiftToTargetExponent .binary64 (num / den) e (accuracyOfFraction (num % den) den) =
      (extended num (den * 2 ^ shift), target (num / den) e) := by
    rw [shiftToTargetExponent, targetExponent_eq, shiftToExponent]
    refine Prod.ext (shiftRight_extended num positive _) ?_
    change e + ((target (num / den) e - e).toNat : ℤ) = target (num / den) e
    omega
  have bounded : roundQuotient .toEven num (den * 2 ^ shift) ≤ 2 ^ 53 := by
    refine (roundQuotient_bounds _ _ _).2.trans (Nat.succ_le_of_lt ?_)
    rw [← Nat.div_div_eq_div_mul, Nat.div_lt_iff_lt_mul (by positivity), ← pow_add]
    refine Nat.lt_log2_self.trans_le (Nat.pow_le_pow_right two_pos ?_)
    rw [shiftIs, target]
    omega
  have second := shiftToTargetExponent_exact bounded (least_le_target (num / den) e)
  rw [roundWithAccuracy, first]
  dsimp only
  rw [roundedMantissa_extended num scaled]
  by_cases carried : roundQuotient .toEven num (den * 2 ^ shift) = 2 ^ 53
  · rw [if_pos carried, carried] at second
    simp only [carried, second, mantissa_extended, settled, if_true]
    rfl
  · rw [if_neg carried] at second
    simp only [second, mantissa_extended, Nat.div_one, settled, if_neg carried]

theorem log2_shiftLeft {m : ℕ} (positive : 0 < m) (k : ℕ) : (m <<< k).log2 = m.log2 + k := by
  rw [Nat.shiftLeft_eq, Nat.log2_eq_iff (by positivity), pow_add, Nat.add_right_comm, pow_add]
  exact ⟨Nat.mul_le_mul_right _ (Nat.log2_self_le positive.ne'),
    Nat.mul_lt_mul_of_pos_right Nat.lt_log2_self (Nat.two_pow_pos k)⟩

/-- Rounding a whole number of units of any size. -/
theorem round_eq (s : Sign) {m : ℕ} (positive : 0 < m) (e : ℤ) :
    round .binary64 s m e = settled s (roundQuotient .toEven (m <<< (e - target m e).toNat)
      (2 ^ (target m e - e).toNat)) (target m e) := by
  set shift := (e - target m e).toNat with shiftIs
  have same : target (m <<< shift) (e - shift) = target m e := by
    rw [target, target, log2_shiftLeft positive]
    push_cast
    ring_nf
  have rounded := @roundWithAccuracy_eq s (m <<< shift) 1 one_pos (e - shift) (by
    rw [Nat.div_one, same]
    omega)
  rw [Nat.div_one, same, Nat.mod_one, one_mul] at rounded
  have gap : (target m e - (e - shift)).toNat = (target m e - e).toNat := by omega
  rw [gap] at rounded
  exact rounded

/-! ### Mantissas as they are packed -/

/-- A mantissa of 53 bits, or of fewer at the least exponent. -/
structure Canonical (m : ℕ) (e : ℤ) : Prop where
  bounded : m < 2 ^ 53
  least : -1074 ≤ e
  normal : 2 ^ 52 ≤ m ∨ e = -1074

theorem Canonical.log2_le {m : ℕ} {e : ℤ} (h : Canonical m e) : m.log2 ≤ 52 := by
  by_cases zero : m = 0
  · rw [zero, Nat.log2_zero]
    omega
  · exact Nat.lt_succ_iff.mp ((Nat.log2_lt zero).mpr h.bounded)

theorem Canonical.log2_eq_iff {m : ℕ} {e : ℤ} (h : Canonical m e) (positive : 0 < m) :
    m.log2 = 52 ↔ 2 ^ 52 ≤ m := by
  rw [Nat.log2_eq_iff positive.ne']
  exact and_iff_left h.bounded

theorem settled_canonical (s : Sign) {m : ℕ} {e : ℤ} (positive : 0 < m) (bounded : m ≤ 2 ^ 53)
    (least : -1074 ≤ e) (normal : 2 ^ 52 ≤ m ∨ e = -1074) :
    ∃ (m' : ℕ) (e' : ℤ) (positive' : 0 < m'),
      settled s m e = .finite s m' e' positive' ∧ Canonical m' e' := by
  rw [settled, dif_neg positive.ne']
  split
  · exact ⟨2 ^ 52, e + 1, Nat.two_pow_pos 52, rfl, by norm_num, by omega, .inl le_rfl⟩
  next short => exact ⟨m, e, positive, rfl, by omega, least, normal⟩

/-- Nothing but zero is rounded to zero. -/
theorem round_canonical (s : Sign) {m : ℕ} (positive : 0 < m) {e : ℤ} (least : -1074 ≤ e) :
    ∃ (m' : ℕ) (e' : ℤ) (positive' : 0 < m'),
      round .binary64 s m e = .finite s m' e' positive' ∧ Canonical m' e' := by
  rw [round_eq s positive]
  obtain ⟨down, up⟩ := roundQuotient_bounds .toEven (m <<< (e - target m e).toNat)
    (2 ^ (target m e - e).toNat)
  have lower : 2 ^ (m.log2 + e - target m e).toNat ≤
      m <<< (e - target m e).toNat / 2 ^ (target m e - e).toNat := by
    rw [Nat.le_div_iff_mul_le (Nat.two_pow_pos _), ← pow_add]
    refine Nat.le_trans ?_ (Nat.log2_self_le (by rw [Nat.shiftLeft_eq]; positivity))
    rw [log2_shiftLeft positive]
    refine Nat.pow_le_pow_right two_pos ?_
    rw [target]
    omega
  have upper : m <<< (e - target m e).toNat / 2 ^ (target m e - e).toNat < 2 ^ 53 := by
    rw [Nat.div_lt_iff_lt_mul (Nat.two_pow_pos _), ← pow_add]
    refine Nat.lt_log2_self.trans_le (Nat.pow_le_pow_right two_pos ?_)
    rw [log2_shiftLeft positive, target]
    omega
  refine settled_canonical s ?_ (by omega) (least_le_target m e) ?_
  · exact (Nat.two_pow_pos _).trans_le (lower.trans down)
  · rcases le_total (m.log2 + 1 + e - 53) (-1074) with tiny | normal
    · exact .inr (max_eq_right tiny)
    · have whole : (m.log2 + e - target m e).toNat = 52 := by
        rw [target]
        omega
      rw [whole] at lower
      exact .inl (lower.trans down)

/-! ### Packing -/

theorem ofBitVec_unpackSign {s : Sign} (e : BitVec 11) (m : BitVec 52) :
    Sign.ofBitVec (unpackSign (packComponents .binary64 s e m)) = s := by
  rw [unpackSign_packComponents, Sign.ofBitVec_toBitVec]

/-- What unpacking makes of a sign, an exponent and a mantissa. -/
theorem unpack_packComponents (s : Sign) (e : BitVec 11) (m : BitVec 52) :
    UnpackedFloat.unpack .binary64 (packComponents .binary64 s e m) =
      if e = -1#11 then if m = 0#52 then .infinity s else .notANumber
      else if e = 0#11 then
        if zero : m = 0#52 then .zero s
        else .finite s m.toNat (-1074)
          (Nat.pos_of_ne_zero fun none => zero (BitVec.eq_of_toNat_eq none))
      else .finite s (2 ^ 52 + m.toNat) (e.toNat - 1075) (by positivity) := by
  have whole : (1#1 ++ m).toNat = 2 ^ 52 + m.toNat := by
    rw [BitVec.toNat_append, ← Nat.shiftLeft_add_eq_or_of_lt m.isLt]
    rfl
  rw [UnpackedFloat.unpack]
  simp only [unpackMantissa_packComponents, unpackExponent_packComponents, ofBitVec_unpackSign,
    whole]
  split
  · rfl
  · split
    next none =>
      rw [none]
      rfl
    · rfl

theorem pack_finite (s : Sign) {m : ℕ} {e : ℤ} (positive : 0 < m) (h : Canonical m e) :
    UnpackedFloat.pack .binary64 (.finite s m e positive) =
      if 971 < e then packedInfinity .binary64 s
      else if 2 ^ 52 ≤ m then packComponents .binary64 s (.ofNat 11 (e + 1075).toNat) (.ofNat 52 m)
      else packComponents .binary64 s 0#11 (.ofNat 52 m) := by
  have least := h.least
  have biased : (e + Format.binary64.exponentBias +
      Format.binary64.mantissaBitsWithoutImplicit).toNat = (e + 1075).toNat := by
    change (e + 1023 + 52).toNat = _
    omega
  rw [UnpackedFloat.pack]
  simp only [biased]
  have large : 2 ^ Format.binary64.exponentBits ≤ (e + 1075).toNat + 1 ↔ 971 < e := by
    change 2048 ≤ (e + 1075).toNat + 1 ↔ _
    omega
  have long : m.log2 + 1 = Format.binary64.mantissaBits ↔ 2 ^ 52 ≤ m := by
    rw [← h.log2_eq_iff positive]
    exact Nat.succ_inj
  simp only [large, long]

/-- Packing keeps what is not too large. -/
theorem unpack_pack_finite (s : Sign) {m : ℕ} {e : ℤ} (positive : 0 < m) (h : Canonical m e) :
    UnpackedFloat.unpack .binary64 (UnpackedFloat.pack .binary64 (.finite s m e positive)) =
      if 971 < e then .infinity s else .finite s m e positive := by
  have least := h.least
  have bounded := h.bounded
  rw [pack_finite s positive h]
  split
  · exact (unpack_packComponents s (-1#11) 0#52).trans rfl
  next inside =>
    have fits : (BitVec.ofNat 11 (e + 1075).toNat).toNat = (e + 1075).toNat := by
      rw [BitVec.toNat_ofNat]
      exact Nat.mod_eq_of_lt (by omega)
    split
    next long =>
      have notLast : BitVec.ofNat 11 (e + 1075).toNat ≠ -1#11 := by
        intro last
        have value := congrArg BitVec.toNat last
        rw [fits] at value
        change (e + 1075).toNat = 2047 at value
        omega
      have notFirst : BitVec.ofNat 11 (e + 1075).toNat ≠ 0#11 := by
        intro first
        have value := congrArg BitVec.toNat first
        rw [fits] at value
        change (e + 1075).toNat = 0 at value
        omega
      rw [unpack_packComponents, if_neg notLast, if_neg notFirst]
      have mantissa : 2 ^ 52 + (BitVec.ofNat 52 m).toNat = m := by
        rw [BitVec.toNat_ofNat]
        omega
      have exponent : ((BitVec.ofNat 11 (e + 1075).toNat).toNat : ℤ) - 1075 = e := by
        rw [fits]
        omega
      simp only [mantissa, exponent]
    next short =>
      have mantissa : (BitVec.ofNat 52 m).toNat = m := by
        rw [BitVec.toNat_ofNat]
        exact Nat.mod_eq_of_lt (by omega)
      have nonzero : BitVec.ofNat 52 m ≠ 0#52 := by
        intro zero
        have value := congrArg BitVec.toNat zero
        rw [mantissa] at value
        exact positive.ne' value
      rw [unpack_packComponents, if_neg (by decide), if_pos rfl, dif_neg nonzero]
      obtain rfl : e = -1074 := h.normal.resolve_left short
      simp only [mantissa]

theorem exists_components (b : BitVec 64) :
    ∃ s, ∃ (e : BitVec 11) (m : BitVec 52), b = packComponents .binary64 s e m :=
  ⟨_, _, _, (@packComponents_unpackSign_unpackExponent_unpackMantissa .binary64 b).symm⟩

/-- What is unpacked is canonical. -/
theorem canonical_of_unpack {b : BitVec 64} {s : Sign} {m : ℕ} {e : ℤ} {positive : 0 < m}
    (h : UnpackedFloat.unpack .binary64 b = .finite s m e positive) : Canonical m e ∧ e ≤ 971 := by
  obtain ⟨s', biased, rest, rfl⟩ := exists_components b
  have exponentBound : biased.toNat < 2 ^ 11 := biased.isLt
  have mantissaBound : rest.toNat < 2 ^ 52 := rest.isLt
  rw [unpack_packComponents] at h
  split at h
  · split at h <;> cases h
  next notLast =>
    split at h
    · split at h
      · cases h
      · cases h
        exact ⟨⟨by omega, le_rfl, .inr rfl⟩, by norm_num⟩
    next notFirst =>
      cases h
      have last : biased.toNat ≠ 2047 := fun same => notLast (BitVec.eq_of_toNat_eq same)
      have first : biased.toNat ≠ 0 := fun same => notFirst (BitVec.eq_of_toNat_eq same)
      exact ⟨⟨by omega, by omega, .inl (by omega)⟩, by omega⟩

/-- Packing what was unpacked gives the same bits. -/
theorem pack_unpack {b : BitVec 64} (valid : Format.binary64.Valid b) :
    UnpackedFloat.pack .binary64 (UnpackedFloat.unpack .binary64 b) = b := by
  obtain ⟨s, e, m, rfl⟩ := exists_components b
  have first : e.toNat < 2048 := e.isLt
  have short : m.toNat < 2 ^ 52 := m.isLt
  rw [unpack_packComponents]
  split
  next last =>
    split
    next none =>
      rw [UnpackedFloat.pack, packedInfinity, last, none]
      rfl
    next some =>
      refine (valid.eq_packedNaN ?_ ?_).symm
      · rw [unpackExponent_packComponents, last]
      · rwa [unpackMantissa_packComponents]
  next notLast =>
    split
    next subnormal =>
      split
      next none =>
        rw [UnpackedFloat.pack, packedZero, subnormal, none]
        rfl
      next some =>
        rw [pack_finite s _ ⟨by omega, le_rfl, .inr rfl⟩, if_neg (by omega), if_neg (by omega),
          subnormal]
        simp
    next normal =>
      have notInfinite : e.toNat ≠ 2047 := fun same => notLast (BitVec.eq_of_toNat_eq same)
      have notZero : e.toNat ≠ 0 := fun same => normal (BitVec.eq_of_toNat_eq same)
      have biased : ((e.toNat : ℤ) - 1075 + 1075).toNat = e.toNat := by omega
      have implicit : BitVec.ofNat 52 (2 ^ 52 + m.toNat) = m := by
        apply BitVec.eq_of_toNat_eq
        rw [BitVec.toNat_ofNat]
        omega
      rw [pack_finite s _ ⟨by omega, by omega, .inl (by omega)⟩, if_neg (by omega),
        if_pos (by omega), biased, implicit]
      simp

/-- A double is known by what it is unpacked to. -/
theorem ext_unpack {x y : Float} (same : x.toModel.unpack = y.toModel.unpack) : x = y := by
  have bits : x.toModel.toBits.toBitVec = y.toModel.toBits.toBitVec := by
    rw [← pack_unpack x.toModel.valid, ← pack_unpack y.toModel.valid]
    exact congrArg _ same
  obtain ⟨⟨⟨a⟩, _⟩⟩ := x
  obtain ⟨⟨⟨b⟩, _⟩⟩ := y
  dsimp only at bits
  subst bits
  rfl

/-- The double of a sign, a mantissa and an exponent. -/
def IsFinite (x : Float) (s : Sign) (m : ℕ) (e : ℤ) : Prop :=
  ∃ positive : 0 < m, x.toModel.unpack = .finite s m e positive

section

variable {x y : Float} {s : Sign} {m : ℕ} {e : ℤ}

theorem IsFinite.ext (left : IsFinite x s m e) (right : IsFinite y s m e) : x = y := by
  obtain ⟨_, unpacked⟩ := left
  obtain ⟨_, unpacked'⟩ := right
  exact ext_unpack (unpacked.trans unpacked'.symm)

theorem IsFinite.canonical (h : IsFinite x s m e) : Canonical m e ∧ e ≤ 971 := by
  obtain ⟨positive, unpacked⟩ := h
  exact canonical_of_unpack unpacked

theorem isFinite_pack (positive : 0 < m) (h : Canonical m e) (top : e ≤ 971) :
    IsFinite (.ofModel (.pack (.finite s m e positive))) s m e := by
  refine ⟨positive, ?_⟩
  exact (unpack_pack_finite s positive h).trans (if_neg (by omega))

theorem IsFinite.isInf (h : IsFinite x s m e) : x.isInf = false := by
  obtain ⟨positive, unpacked⟩ := h
  change x.toModel.unpack.isInf = false
  rw [unpacked]
  rfl

theorem IsFinite.neg (h : IsFinite x s m e) : IsFinite (-x) (-s) m e := by
  obtain ⟨canonical, top⟩ := h.canonical
  obtain ⟨positive, unpacked⟩ := h
  have negated : -x = .ofModel (.pack x.toModel.unpack.neg) := rfl
  rw [negated, unpacked]
  exact isFinite_pack positive canonical top

end

/-! ### Doubles as exact numbers -/

theorem toNat_packComponents (s : Sign) (e : BitVec 11) (m : BitVec 52) :
    (packComponents .binary64 s e m).toNat =
      (s.toBitVec.toNat * 2 ^ 11 + e.toNat) * 2 ^ 52 + m.toNat := by
  unfold packComponents
  rw [BitVec.toNat_append, BitVec.toNat_append, ← Nat.shiftLeft_add_eq_or_of_lt m.isLt,
    ← Nat.shiftLeft_add_eq_or_of_lt e.isLt, Nat.shiftLeft_eq, Nat.shiftLeft_eq]

def signOf (x : Float) : Sign :=
  if Binary.isNegative x then .negative else .positive

section

variable {x : Float} {s : Sign} {e : BitVec 11} {m : BitVec 52}

theorem toNat_toBits (h : x.toModel.toBits.toBitVec = packComponents .binary64 s e m) :
    x.toBits.toNat = (s.toBitVec.toNat * 2 ^ 11 + e.toNat) * 2 ^ 52 + m.toNat := by
  rw [← toNat_packComponents, ← h]
  rfl

theorem signOf_eq (h : x.toModel.toBits.toBitVec = packComponents .binary64 s e m) :
    signOf x = s := by
  have first : e.toNat < 2048 := e.isLt
  have short : m.toNat < 2 ^ 52 := m.isLt
  have limit : 1 <<< 63 = 2 ^ 63 := rfl
  unfold signOf Binary.isNegative
  rw [toNat_toBits h, limit]
  cases s with
  | negative =>
    refine if_pos (decide_eq_true ?_)
    change 2 ^ 63 ≤ (1 * 2 ^ 11 + e.toNat) * 2 ^ 52 + m.toNat
    omega
  | positive =>
    refine if_neg fun above => ?_
    have above := of_decide_eq_true above
    change 2 ^ 63 ≤ (0 * 2 ^ 11 + e.toNat) * 2 ^ 52 + m.toNat at above
    omega

theorem ofFloat_eq (h : x.toModel.toBits.toBitVec = packComponents .binary64 s e m) :
    Binary.ofFloat x =
      if e.toNat = 2047 then if m.toNat = 0 then .infinite else .notANumber
      else if e.toNat = 0 then .finite m.toNat (-1074)
      else .finite (2 ^ 52 + m.toNat) (e.toNat - 1075) := by
  have first : e.toNat < 2048 := e.isLt
  have short : m.toNat < 2 ^ 52 := m.isLt
  have places : 1 <<< 52 = 2 ^ 52 ∧ 1 <<< 11 = 2 ^ 11 := ⟨rfl, rfl⟩
  have fraction : x.toBits.toNat % 2 ^ 52 = m.toNat := by
    rw [toNat_toBits h]
    omega
  have biased : x.toBits.toNat / 2 ^ 52 % 2 ^ 11 = e.toNat := by
    rw [toNat_toBits h]
    omega
  unfold Binary.ofFloat
  dsimp only
  rw [places.1, places.2, Nat.shiftRight_eq_div_pow, fraction, biased, Nat.add_comm m.toNat]

end

/-- Both ways to take a double apart give the same. -/
theorem unpack_eq (x : Float) : x.toModel.unpack =
    match Binary.ofFloat x with
    | .notANumber => .notANumber
    | .infinite => .infinity (signOf x)
    | .finite m e =>
      if zero : m = 0 then .zero (signOf x)
      else .finite (signOf x) m e (Nat.pos_of_ne_zero zero) := by
  obtain ⟨s, e, m, h⟩ := exists_components x.toModel.toBits.toBitVec
  have last : e = -1#11 ↔ e.toNat = 2047 := BitVec.toNat_inj.symm
  have least : e = 0#11 ↔ e.toNat = 0 := BitVec.toNat_inj.symm
  have none : m = 0#52 ↔ m.toNat = 0 := BitVec.toNat_inj.symm
  have unpacked : x.toModel.unpack =
      UnpackedFloat.unpack .binary64 (packComponents .binary64 s e m) :=
    congrArg (UnpackedFloat.unpack .binary64) h
  rw [unpacked, unpack_packComponents, signOf_eq h, ofFloat_eq h]
  simp only [last, least, none]
  split
  · split <;> rfl
  · split
    · rfl
    · dsimp only
      rw [dif_neg (by omega)]

theorem isFinite_of_ofFloat {x : Float} {m : ℕ} {e : ℤ} (h : Binary.ofFloat x = .finite m e)
    (positive : 0 < m) : IsFinite x (signOf x) m e := by
  refine ⟨positive, ?_⟩
  rw [unpack_eq, h]
  exact dif_neg positive.ne'

end LeastSquares.Double
