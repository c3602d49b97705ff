import LeastSquares.Proofs.Shortest

/-!
# The nearest double

Whatever reads back as a double is rounded to it: if the exact product or quotient of two doubles
lies in the interval around a double, that double is the result.
-/
namespace LeastSquares.Double

open Float.Model UnpackedFloat Decimal

/-! ### Rounded quotients -/

/-- A quotient is rounded to the whole number that it is nearest to. Half way between two of them,
it is rounded to the even one. -/
theorem roundQuotient_eq {num den m : ℕ} (lower : 2 * m * den ≤ 2 * num + den)
    (upper : 2 * num ≤ 2 * m * den + den)
    (even : m % 2 = 0 ∨ 2 * m * den < 2 * num + den ∧ 2 * num < 2 * m * den + den)
    (positive : 0 < den) : roundQuotient .toEven num den = m := by
  have whole : den * (num / den) + num % den = num := Nat.div_add_mod num den
  have below : num % den < den := Nat.mod_lt num positive
  unfold roundQuotient
  dsimp only
  generalize num / den = q at *
  generalize num % den = r at *
  subst whole
  rcases lt_trichotomy m q with less | rfl | more
  · obtain ⟨k, rfl⟩ := Nat.exists_eq_add_of_lt less
    nlinarith
  · have product : 2 * m * den = 2 * (den * m) := by ring
    rw [product] at lower upper even
    split
    · rfl
    next reached =>
      -- The quotient is half way up at most, where the next whole number would be odd.
      have half : 2 * r = den := by omega
      rw [if_neg (by omega)]
      omega
  · obtain ⟨k, rfl⟩ := Nat.exists_eq_add_of_lt more
    have product : 2 * (q + k + 1) * den = 2 * (den * q) + 2 * (k * den) + 2 * den := by ring
    rw [product] at lower upper even
    obtain rfl : k = 0 := by
      by_contra some
      have : den ≤ k * den := Nat.le_mul_of_pos_left den (Nat.pos_of_ne_zero some)
      omega
    rw [if_neg (by omega)]
    split <;> omega

/-- The place of what is not too large among the doubles. -/
theorem target_eq {n : ℕ} {y : ℚ} {E t : ℤ} (floor : (n : ℚ) * 2 ^ E ≤ y)
    (ceil : y < (n + 1 : ℕ) * 2 ^ E) (le : E ≤ target n E)
    (lower : 2 ^ (52 + t) ≤ y ∨ t = -1074) (least : -1074 ≤ t) (upper : y < 2 ^ (53 + t)) :
    target n E = t := by
  have unit : (0 : ℚ) < 2 ^ E := by positivity
  have two : (1 : ℚ) < 2 := by norm_num
  rcases Nat.eq_zero_or_pos n with rfl | positive
  · -- The quotient is below its unit, so that the least exponent must be the target.
    have small : E ≤ -1074 := by
      unfold target at le
      rw [Nat.log2_zero] at le
      omega
    have bottom : target 0 E = -1074 := by
      unfold target
      rw [Nat.log2_zero]
      omega
    rw [bottom]
    rcases lower with lower | bottom
    · have below : (2 : ℚ) ^ (52 + t) < 2 ^ E := by
        simp only [zero_add, Nat.cast_one, one_mul] at ceil
        exact lower.trans_lt ceil
      have := (zpow_lt_zpow_iff_right₀ two).mp below
      omega
    · exact bottom.symm
  · have log_le : (2 : ℚ) ^ ((n.log2 : ℤ) + E) ≤ y := by
      have : ((2 ^ n.log2 : ℕ) : ℚ) ≤ n := Nat.cast_le.mpr (Nat.log2_self_le positive.ne')
      rw [zpow_add₀ (by norm_num), zpow_natCast]
      push_cast at this
      exact (mul_le_mul_of_nonneg_right this unit.le).trans floor
    have lt_log : y < (2 : ℚ) ^ ((n.log2 : ℤ) + 1 + E) := by
      have : ((n + 1 : ℕ) : ℚ) ≤ (2 ^ (n.log2 + 1) : ℕ) := Nat.cast_le.mpr Nat.lt_log2_self
      rw [zpow_add₀ (by norm_num), ← Nat.cast_succ, zpow_natCast]
      push_cast at this ceil ⊢
      exact ceil.trans_le (mul_le_mul_of_nonneg_right this unit.le)
    have top := (zpow_lt_zpow_iff_right₀ two).mp (log_le.trans_lt upper)
    unfold target
    rcases lower with lower | bottom
    · have := (zpow_lt_zpow_iff_right₀ two).mp (lower.trans_lt lt_log)
      omega
    · omega

/-- The quotient of two whole numbers that differs by a half at most from a third one. -/
theorem roundQuotient_of_value {num den m : ℕ} {z : ℚ} (positive : 0 < den)
    (value : (num : ℚ) = z * den) (lower : m - 1 / 2 ≤ z) (upper : z ≤ m + 1 / 2)
    (even : m % 2 = 0 ∨ m - 1 / 2 < z ∧ z < m + 1 / 2) : roundQuotient .toEven num den = m := by
  have some : (0 : ℚ) < den := Nat.cast_pos.mpr positive
  have down : (2 * m * den : ℚ) ≤ 2 * num + den := by
    rw [value]
    nlinarith
  have up : (2 * num : ℚ) ≤ 2 * m * den + den := by
    rw [value]
    nlinarith
  have strict (inside : m - 1 / 2 < z ∧ z < m + 1 / 2) :
      (2 * m * den : ℚ) < 2 * num + den ∧ (2 * num : ℚ) < 2 * m * den + den := by
    rw [value]
    constructor <;> nlinarith
  exact roundQuotient_eq (by exact_mod_cast down) (by exact_mod_cast up)
    (even.imp_right fun inside => by exact_mod_cast strict inside) positive

theorem two_pow_toNat_sub {a b : ℤ} (le : b ≤ a) : (2 : ℚ) ^ (a - b).toNat = 2 ^ a / 2 ^ b := by
  rw [← zpow_natCast, Int.toNat_of_nonneg (sub_nonneg.mpr le), zpow_sub₀ two_ne_zero]

theorem div_bounds {num den : ℕ} {y : ℚ} {E : ℤ} (positive : 0 < den)
    (value : (num : ℚ) * 2 ^ E = y * den) :
    ((num / den : ℕ) : ℚ) * 2 ^ E ≤ y ∧ y < (num / den + 1 : ℕ) * 2 ^ E := by
  have unit : (0 : ℚ) < 2 ^ E := by positivity
  have some : (0 : ℚ) < den := Nat.cast_pos.mpr positive
  have down : ((num / den * den : ℕ) : ℚ) ≤ num := Nat.cast_le.mpr (Nat.div_mul_le_self num den)
  have up : (num : ℚ) < ((num / den + 1) * den : ℕ) :=
    Nat.cast_lt.mpr (Nat.lt_mul_of_div_lt (Nat.lt_succ_self _) positive)
  push_cast at down up ⊢
  constructor <;> nlinarith

section

variable {m : ℕ} {e : ℤ} {y : ℚ}

theorem lt_of_readsAs (reads : ReadsAs m e y) (h : Canonical m e) (positive : 0 < m) :
    y < 2 ^ (53 + e) := by
  have unit : (0 : ℚ) < 2 ^ e := by positivity
  have bounded : (m : ℚ) + 1 ≤ 2 ^ 53 := by exact_mod_cast h.bounded
  obtain ⟨-, upper, -⟩ := reads.units positive
  rw [zpow_add₀ two_ne_zero, ← div_lt_iff₀ unit]
  refine upper.trans_lt ?_
  norm_num at bounded ⊢
  linarith

/-- What lies below all doubles of an exponent but reads back as one of them is within a quarter of
its unit below the least of them, which is a power of two. -/
theorem power_of_readsAs (reads : ReadsAs m e y) (h : Canonical m e) (positive : 0 < m)
    (below : y < 2 ^ (52 + e)) (above : e ≠ -1074) :
    m = 2 ^ 52 ∧ 2 ^ 53 - 1 / 2 ≤ y / 2 ^ (e - 1) ∧ y / 2 ^ (e - 1) < 2 ^ 53 := by
  have unit : (0 : ℚ) < 2 ^ e := by positivity
  have least := h.least
  have reached : (reach m e : ℚ) ≤ 2 := by exact_mod_cast (reach_bounds m e).2
  have below : y / 2 ^ e < 2 ^ 52 := by
    rw [zpow_add₀ two_ne_zero] at below
    rw [div_lt_iff₀ unit]
    exact_mod_cast below
  obtain ⟨lower, -, -⟩ := reads.units positive
  obtain rfl : m = 2 ^ 52 := by
    refine le_antisymm ?_ (h.normal.resolve_right above)
    have : (m : ℚ) < 2 ^ 52 + 1 := by linarith
    exact Nat.lt_succ_iff.mp (by exact_mod_cast this)
  have quarter : reach (2 ^ 52) e = 1 := if_pos ⟨rfl, by omega⟩
  have double : y / 2 ^ (e - 1) = 2 * (y / 2 ^ e) := by
    rw [zpow_sub_one₀ two_ne_zero]
    field_simp
  rw [quarter] at lower
  rw [double]
  norm_num at lower below ⊢
  constructor <;> linarith

end

/-- What reads back as a double is rounded to it. -/
theorem roundWithAccuracy_of_readsAs (s : Sign) {num den m : ℕ} {y : ℚ} {E e : ℤ}
    (some : 0 < den) (value : (num : ℚ) * 2 ^ E = y * den) (le : E ≤ target (num / den) E)
    (h : Canonical m e) (positive : 0 < m) (reads : ReadsAs m e y) :
    roundWithAccuracy .binary64 s (num / den) E (accuracyOfFraction (num % den) den) =
      .finite s m e positive := by
  have least := h.least
  have bounded := h.bounded
  obtain ⟨floor, ceil⟩ := div_bounds some value
  -- The value in units of the place that it is rounded to.
  have scaled (t : ℤ) (below : E ≤ t) :
      (num : ℚ) = y / 2 ^ t * (den * 2 ^ (t - E).toNat : ℕ) := by
    push_cast
    rw [two_pow_toNat_sub below]
    field_simp
    linarith
  have wide (t : ℤ) : 0 < den * 2 ^ (t - E).toNat := by positivity
  rw [roundWithAccuracy_eq s num some le]
  by_cases near : 2 ^ (52 + e) ≤ y ∨ e = -1074
  · have same := target_eq floor ceil le near least (lt_of_readsAs reads h positive)
    rw [same] at le ⊢
    obtain ⟨lower, upper, even⟩ := reads.units positive
    have reached : (reach m e : ℚ) ≤ 2 := by exact_mod_cast (reach_bounds m e).2
    have rounded := roundQuotient_of_value (wide e) (scaled e le) (by linarith) upper
      (even.imp_right fun strict => ⟨by linarith, strict.2⟩)
    rw [rounded, settled, dif_neg positive.ne', if_neg (by omega)]
  · -- Rounding carries into the power of two.
    obtain ⟨below, above⟩ := not_or.mp near
    obtain ⟨rfl, lower, upper⟩ := power_of_readsAs reads h positive (not_le.mp below) above
    have unit : (0 : ℚ) < 2 ^ (e - 1) := by positivity
    have same : target (num / den) E = e - 1 := by
      refine target_eq floor ceil le (.inl ?_) (by omega) ?_
      · rw [zpow_add₀ two_ne_zero, ← le_div_iff₀ unit]
        norm_num at lower ⊢
        linarith
      · rw [zpow_add₀ two_ne_zero, ← div_lt_iff₀ unit]
        exact_mod_cast upper
    rw [same] at le ⊢
    have rounded : roundQuotient .toEven num (den * 2 ^ (e - 1 - E).toNat) = 2 ^ 53 := by
      refine roundQuotient_of_value (wide (e - 1)) (scaled (e - 1) le) ?_ ?_ (.inl (by norm_num))
      · exact_mod_cast lower
      · push_cast
        linarith
    rw [rounded, settled, dif_neg (by norm_num), if_pos rfl]
    simp only [sub_add_cancel]

/-- A double reads back from itself. -/
theorem readsAs_self {m : ℕ} (positive : 0 < m) (e : ℤ) : ReadsAs m e (m * 2 ^ e) := by
  have unit : (0 : ℚ) < 2 ^ (e - 2) := by positivity
  have quarters : (m : ℚ) * 2 ^ e = (4 * m : ℕ) * 2 ^ (e - 2) := by
    rw [zpow_sub₀ (by norm_num)]
    push_cast
    ring
  have least := (reach_bounds m e).1
  rw [quarters]
  exact readsAs_of_bounds (mul_lt_mul_of_pos_right (Nat.cast_lt.mpr (by omega)) unit)
    (mul_lt_mul_of_pos_right (Nat.cast_lt.mpr (by omega)) unit)

/-! ### Products and quotients -/

variable {x y : Float} {s t : Sign} {m k n : ℕ} {e d f : ℤ}

/-- The double that an exact product reads back as is the product. -/
theorem IsFinite.mul (left : IsFinite x s m e) (right : IsFinite y t k d) (long : 2 ^ 52 ≤ m)
    (positive : 0 < n) (h : Canonical n f) (top : f ≤ 971)
    (reads : ReadsAs n f (m * 2 ^ e * (k * 2 ^ d))) : IsFinite (x * y) (s * t) n f := by
  obtain ⟨some, unpacked⟩ := left
  obtain ⟨some', unpacked'⟩ := right
  have product : x * y = .ofModel (.pack (.mul .binary64 x.toModel.unpack y.toModel.unpack)) := rfl
  have le : e + d ≤ target (m * k / 1) (e + d) := by
    have : 52 ≤ (m * k).log2 := by
      rw [Nat.le_log2 (by positivity)]
      exact long.trans (Nat.le_mul_of_pos_right m some')
    rw [Nat.div_one, target]
    omega
  have value : ((m * k : ℕ) : ℚ) * 2 ^ (e + d) = m * 2 ^ e * (k * 2 ^ d) * (1 : ℕ) := by
    rw [zpow_add₀ (by norm_num)]
    push_cast
    ring
  have rounded := roundWithAccuracy_of_readsAs (s * t) one_pos value le h positive reads
  rw [Nat.div_one, Nat.mod_one] at rounded
  have exact : accuracyOfFraction 0 1 = .exact := rfl
  rw [product, unpacked, unpacked', UnpackedFloat.mul, ← exact, rounded]
  exact isFinite_pack positive h top

/-- The double that an exact quotient reads back as is the quotient. -/
theorem IsFinite.div (left : IsFinite x s m e) (right : IsFinite y t k d)
    (positive : 0 < n) (h : Canonical n f) (top : f ≤ 971)
    (reads : ReadsAs n f (m * 2 ^ e / (k * 2 ^ d))) : IsFinite (x / y) (s / t) n f := by
  obtain ⟨some, unpacked⟩ := left
  obtain ⟨some', unpacked'⟩ := right
  have quotient : x / y = .ofModel (.pack (.div .binary64 x.toModel.unpack y.toModel.unpack)) := rfl
  set E := min (e - d) (max (m.log2 + 1 + e - (k.log2 + 1 + d) - 53) (-1074)) with place
  have divided : UnpackedFloat.divCore .binary64 m e k d =
      (m <<< (e - d - E).toNat / k, E, accuracyOfFraction (m <<< (e - d - E).toNat % k) k) := rfl
  have le : E ≤ target (m <<< (e - d - E).toNat / k) E := by
    rcases le_or_gt E (-1074) with bottom | above
    · exact bottom.trans (least_le_target _ _)
    -- The dividend is shifted until the quotient has all of its bits.
    have long : 2 ^ 52 ≤ m <<< (e - d - E).toNat / k := by
      rw [Nat.le_div_iff_mul_le some', Nat.shiftLeft_eq]
      calc 2 ^ 52 * k ≤ 2 ^ 52 * 2 ^ (k.log2 + 1) :=
            Nat.mul_le_mul_left _ Nat.lt_log2_self.le
        _ ≤ 2 ^ m.log2 * 2 ^ (e - d - E).toNat := by
          rw [← pow_add, ← pow_add]
          exact Nat.pow_le_pow_right two_pos (by omega)
        _ ≤ m * 2 ^ (e - d - E).toNat := Nat.mul_le_mul_right _ (Nat.log2_self_le some.ne')
    have := (Nat.le_log2 (by omega)).mpr long
    rw [target]
    omega
  have value : ((m <<< (e - d - E).toNat : ℕ) : ℚ) * 2 ^ E = m * 2 ^ e / (k * 2 ^ d) * k := by
    have divisor : (k : ℚ) ≠ 0 := Nat.cast_ne_zero.mpr some'.ne'
    have below : E ≤ e - d := min_le_left _ _
    rw [Nat.shiftLeft_eq]
    push_cast
    rw [two_pow_toNat_sub below, zpow_sub₀ two_ne_zero]
    field_simp
  have rounded := roundWithAccuracy_of_readsAs (s / t) some' value le h positive reads
  rw [quotient, unpacked, unpacked', UnpackedFloat.div, divided]
  dsimp only
  rw [rounded]
  exact isFinite_pack positive h top

end LeastSquares.Double
