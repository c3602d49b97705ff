import LeastSquares.Proofs.Nearest
import LeastSquares.Proofs.Json.Doubles

/-!
# Doubles of few digits

A whole number below `2 ^ 53` and a power of ten up to the twenty-second are doubles themselves, so
that their product or quotient is rounded once. A double whose digits are no more than that is read
back from its text.
-/
namespace LeastSquares.Double

open Float.Model UnpackedFloat Decimal

/-! ### Exact operands -/

/-- A positive double of 53 bits, and its value. -/
def HasValue (x : Float) (v : ℚ) : Prop :=
  ∃ m e, IsFinite x .positive m e ∧ 2 ^ 52 ≤ m ∧ (m : ℚ) * 2 ^ e = v

theorem HasValue.mul {x y : Float} {v w : ℚ} {m : ℕ} {e : ℤ} (left : HasValue x v)
    (right : HasValue y w) (positive : 0 < m) (h : Canonical m e) (top : e ≤ 971)
    (reads : ReadsAs m e (v * w)) : IsFinite (x * y) .positive m e := by
  obtain ⟨_, _, left, long, rfl⟩ := left
  obtain ⟨_, _, right, -, rfl⟩ := right
  exact left.mul right long positive h top reads

theorem HasValue.div {x y : Float} {v w : ℚ} {m : ℕ} {e : ℤ} (left : HasValue x v)
    (right : HasValue y w) (positive : 0 < m) (h : Canonical m e) (top : e ≤ 971)
    (reads : ReadsAs m e (v / w)) : IsFinite (x / y) .positive m e := by
  obtain ⟨_, _, left, -, rfl⟩ := left
  obtain ⟨_, _, right, -, rfl⟩ := right
  exact left.div right positive h top reads

/-- Whether the power of ten that numbers are scaled with is exact. -/
def IsPower (k : ℕ) : Prop :=
  match Binary.ofFloat (Float.ofScientific 1 false k) with
  | .finite m e => 2 ^ 52 ≤ m ∧ m * 2 ^ e.toNat = 10 ^ k * 2 ^ (-e).toNat ∧
    Binary.isNegative (Float.ofScientific 1 false k) = false
  | _ => False

instance (k : ℕ) : Decidable (IsPower k) := by
  unfold IsPower
  split <;> infer_instance

theorem isPower_of_le {k : ℕ} (small : k ≤ 22) : IsPower k := by
  have all : ∀ k : Fin 23, IsPower k := by decide +kernel
  exact all ⟨k, by omega⟩

theorem hasValue_power {k : ℕ} (small : k ≤ 22) :
    HasValue (Float.ofScientific 1 false k) (10 ^ k) := by
  have power := isPower_of_le small
  unfold IsPower at power
  split at power
  next m e parts =>
    obtain ⟨long, value, sign⟩ := power
    have finite := isFinite_of_ofFloat parts (by omega)
    rw [signOf, sign] at finite
    refine ⟨m, e, finite, long, ?_⟩
    have value : (m : ℚ) * 2 ^ e.toNat = 10 ^ k * 2 ^ (-e).toNat := by exact_mod_cast value
    rw [pow_toNat two_ne_zero, ← mul_assoc] at value
    exact mul_right_cancel₀ (by positivity) value
  next => exact power.elim

theorem hasValue_toFloat {c : ℕ} (positive : 0 < c) (short : c < 2 ^ 53) :
    HasValue c.toUInt64.toFloat c := by
  have bits : c.log2 ≤ 52 := Nat.lt_succ_iff.mp ((Nat.log2_lt positive.ne').mpr short)
  have place : target c 0 = c.log2 - 52 := by
    rw [target]
    omega
  have up : (0 - target c 0).toNat = 52 - c.log2 := by omega
  have down : (target c 0 - 0).toNat = 0 := by omega
  have whole : c.toUInt64.toNat = c := UInt64.toNat_ofNat_of_lt' (short.trans (by decide))
  have normal : (c <<< (52 - c.log2)).log2 = 52 := by
    rw [log2_shiftLeft positive]
    omega
  have some : 0 < c <<< (52 - c.log2) := by
    rw [Nat.shiftLeft_eq]
    positivity
  have bounds := (Nat.log2_eq_iff some.ne').mp normal
  have converted : UnpackedFloat.ofUInt64 .binary64 c.toUInt64 =
      .finite .positive (c <<< (52 - c.log2)) (c.log2 - 52) some := by
    have rounded := round_eq .positive positive 0
    rw [up, down, place] at rounded
    unfold UnpackedFloat.ofUInt64 UnpackedFloat.ofNat UnpackedFloat.ofInt UnpackedFloat.normalize
    rw [whole, Int.compare_eq_gt.mpr (Int.natCast_pos.mpr positive)]
    dsimp only
    rw [Int.toNat_natCast, rounded, pow_zero, roundQuotient_one, settled, dif_neg some.ne',
      if_neg (by omega)]
  have float : c.toUInt64.toFloat =
      .ofModel (.pack (UnpackedFloat.ofUInt64 .binary64 c.toUInt64)) := rfl
  refine ⟨c <<< (52 - c.log2), c.log2 - 52, ?_, bounds.1, ?_⟩
  · rw [float, converted]
    exact isFinite_pack some ⟨bounds.2, by omega, .inl bounds.1⟩ (by omega)
  · have unit : (2 : ℚ) ^ (52 - c.log2) * 2 ^ ((c.log2 : ℤ) - 52) = 1 := by
      rw [← zpow_natCast, ← zpow_add₀ (by norm_num), Nat.cast_sub bits]
      norm_num
    rw [Nat.shiftLeft_eq]
    push_cast
    rw [mul_assoc, unit, mul_one]

/-- A whole number of at most 53 bits is a double. -/
theorem hasValue_ofNat {c : ℕ} (positive : 0 < c) (short : c < 2 ^ 53) :
    HasValue (Float.ofNat c) c := by
  have one : HasValue (Float.ofBits 0x3FF0000000000000) 1 :=
    ⟨2 ^ 52, -52, ⟨Nat.two_pow_pos 52, by rfl⟩, le_rfl, by norm_num⟩
  have product : Float.ofNat c = c.toUInt64.toFloat * Float.ofBits 0x3FF0000000000000 :=
    dif_pos ⟨short, Nat.zero_le 22⟩
  have whole := hasValue_toFloat positive short
  obtain ⟨m, e, finite, long, value⟩ := hasValue_toFloat positive short
  obtain ⟨canonical, top⟩ := finite.canonical
  have some : 0 < m := by omega
  refine ⟨m, e, ?_, long, value⟩
  rw [product]
  refine whole.mul one some canonical top ?_
  rw [mul_one, ← value]
  exact readsAs_self some e

end LeastSquares.Double

namespace LeastSquares

open Decimal Double

/-! ### Scaling -/

namespace Json.Significand

/-- The value of digits with an exponent. -/
def value (s : Significand) : ℚ :=
  s.digits * 10 ^ s.exponent

/-- Few digits are scaled to the double that they read back as. -/
theorem toFloat?_of_readsAs {s : Significand} {m : ℕ} {e : ℤ} (some : 0 < s.digits)
    (short : s.digits < 2 ^ 53) (near : s.exponent.natAbs ≤ 22) (positive : 0 < m)
    (h : Canonical m e) (top : e ≤ 971) (reads : ReadsAs m e s.value) :
    ∃ x, s.toFloat? = .some x ∧ IsFinite x .positive m e := by
  have whole := hasValue_ofNat some short
  have power := hasValue_power near
  have once : s.exponent.natAbs / 308 = 0 := by omega
  have within : s.exponent.natAbs ≤ 308 := by omega
  unfold toFloat? scale
  rw [once]
  dsimp only
  rw [if_pos within]
  split
  next up =>
    have same : s.value = s.digits * 10 ^ s.exponent.natAbs := by
      rw [value, ← zpow_natCast, Int.natCast_natAbs, abs_of_nonneg up]
    have scaled := whole.mul power positive h top (same ▸ reads)
    rw [if_neg (by rw [scaled.isInf]; exact Bool.false_ne_true)]
    exact ⟨_, rfl, scaled⟩
  next down =>
    have same : s.value = s.digits / 10 ^ s.exponent.natAbs := by
      rw [value, ← zpow_natCast, Int.natCast_natAbs, abs_of_neg (not_le.mp down), zpow_neg,
        div_inv_eq_mul]
    exact ⟨_, rfl, whole.div power positive h top (same ▸ reads)⟩

end Json.Significand

theorem Decimal.written_digits_pos {d : Decimal} (positive : 0 < d.digits) :
    0 < d.written.digits := by
  unfold Decimal.written
  split <;> positivity

theorem Decimal.value_written (d : Decimal) : d.written.value = d.digits * 10 ^ d.exponent := by
  unfold Decimal.written Json.Significand.value
  split
  next whole =>
    have place : (10 : ℚ) ^ d.exponent = 10 ^ d.exponent.toNat := by
      rw [← zpow_natCast, Int.toNat_of_nonneg whole.1]
    rw [place]
    push_cast
    rw [pow_succ, zpow_neg_one]
    field_simp
  next => rfl

/-! ### Texts -/

namespace Double

/-- Zero, or a finite double whose shortest digits are below `2 ^ 53` as a whole number, with an
exponent of at most 22 either way. -/
def Brief (x : Float) : Prop :=
  match Binary.ofFloat x with
  | .notANumber | .infinite => False
  | .finite 0 _ => True
  | .finite m e =>
    let s := (Decimal.shortest .toEven m e).written
    s.digits < 2 ^ 53 ∧ s.exponent.natAbs ≤ 22

instance (x : Float) : Decidable (Brief x) := by
  unfold Brief
  split <;> infer_instance

/-- A double of few digits is read back from its text. -/
theorem reread_of_brief {x : Float} (brief : Brief x) : reread x = some x := by
  have sign : signOf x = if Binary.isNegative x then .negative else .positive := rfl
  unfold Brief at brief
  unfold reread
  cases parts : Binary.ofFloat x with
  | notANumber =>
    rw [parts] at brief
    exact brief.elim
  | infinite =>
    rw [parts] at brief
    exact brief.elim
  | finite m e =>
    rcases Nat.eq_zero_or_pos m with rfl | positive
    · have zero : x.toModel.unpack = .zero (signOf x) := by
        rw [unpack_eq, parts]
        rfl
      refine congrArg some (ext_unpack ?_)
      rw [zero, sign]
      split <;> rfl
    · obtain ⟨m, rfl⟩ := Nat.exists_eq_add_of_le' positive
      rw [parts] at brief
      obtain ⟨short, near⟩ := brief
      have finite := isFinite_of_ofFloat parts positive
      obtain ⟨canonical, top⟩ := finite.canonical
      have found := shortest_spec .toEven positive canonical top
      obtain ⟨y, read, magnitude⟩ := Json.Significand.toFloat?_of_readsAs
        (written_digits_pos found.digits_pos) short near positive canonical top
        (value_written _ ▸ found.readsAs)
      refine (congrArg (Option.map _) read).trans (congrArg Option.some ?_)
      rw [sign] at finite
      split
      next negative =>
        rw [if_pos negative] at finite
        exact magnitude.neg.ext finite
      next positive =>
        rw [if_neg positive] at finite
        exact magnitude.ext finite

end Double

end LeastSquares
