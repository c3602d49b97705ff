import LeastSquares.Proofs.Rounding

/-!
# Shortest decimals

A double is read back from every decimal in an interval around it. The search for the shortest one
goes through the powers of ten downwards and takes the first of which a multiple lies in the
interval. It finds one before its steps run out, and one of at most seventeen digits.
-/
namespace LeastSquares.Decimal

open Double

/-! ### Quotients -/

theorem pow_toNat {a : ℚ} (nonzero : a ≠ 0) (k : ℤ) : a ^ k.toNat = a ^ k * a ^ (-k).toNat := by
  rw [← zpow_natCast, ← zpow_natCast, ← zpow_add₀ nonzero]
  congr 1
  omega

section

variable (b d : ℤ)

/-- What a whole number is multiplied with to give the numerator. -/
def numeratorUnit : ℕ := 10 ^ d.toNat * 2 ^ b.toNat

def denominator : ℕ := 10 ^ (-d).toNat * 2 ^ (-b).toNat

theorem fraction_eq (n : ℕ) : fraction n b d = (n * numeratorUnit b d, denominator b d) := by
  have power (k : ℕ) : powerOfTen k = 10 ^ k := rfl
  simp only [fraction, power, Nat.shiftLeft_eq, numeratorUnit, denominator, mul_assoc]

theorem denominator_pos : 0 < denominator b d := by
  unfold denominator
  positivity

theorem numeratorUnit_value :
    (numeratorUnit b d : ℚ) = 2 ^ b * 10 ^ d * denominator b d := by
  unfold numeratorUnit denominator
  push_cast
  rw [pow_toNat (by norm_num) d, pow_toNat two_ne_zero b]
  ring

end

theorem numerator_le_iff (a c : ℕ) (e place : ℤ) :
    a * numeratorUnit e (-place) ≤ c * denominator e (-place) ↔
      (a : ℚ) * 2 ^ e ≤ c * 10 ^ place := by
  have positive : (0 : ℚ) < denominator e (-place) := Nat.cast_pos.mpr (denominator_pos _ _)
  have ten : (0 : ℚ) < 10 ^ place := by positivity
  rw [← Nat.cast_le (α := ℚ)]
  push_cast
  rw [numeratorUnit_value, zpow_neg, ← mul_assoc, mul_le_mul_iff_left₀ positive, ← div_eq_mul_inv,
    mul_div_assoc', div_le_iff₀ ten]

theorem lt_numerator_iff (a c : ℕ) (e place : ℤ) :
    c * denominator e (-place) < a * numeratorUnit e (-place) ↔
      (c : ℚ) * 10 ^ place < a * 2 ^ e := by
  rw [← not_le, numerator_le_iff, not_le]

theorem numerator_lt_iff (a c : ℕ) (e place : ℤ) :
    a * numeratorUnit e (-place) < c * denominator e (-place) ↔
      (a : ℚ) * 2 ^ e < c * 10 ^ place := by
  have positive : (0 : ℚ) < denominator e (-place) := Nat.cast_pos.mpr (denominator_pos _ _)
  have ten : (0 : ℚ) < 10 ^ place := by positivity
  rw [← Nat.cast_lt (α := ℚ)]
  push_cast
  rw [numeratorUnit_value, zpow_neg, ← mul_assoc, mul_lt_mul_iff_left₀ positive, ← div_eq_mul_inv,
    mul_div_assoc', div_lt_iff₀ ten]

theorem le_numerator_iff (a c : ℕ) (e place : ℤ) :
    c * denominator e (-place) ≤ a * numeratorUnit e (-place) ↔
      (c : ℚ) * 10 ^ place ≤ a * 2 ^ e := by
  rw [← not_lt, numerator_lt_iff, not_lt]

/-! ### The interval that reads back -/

/-- How far down the interval reaches, in quarters of the unit: below a power of two the doubles
are twice as dense. -/
def reach (m : ℕ) (e : ℤ) : ℕ :=
  if m = 2 ^ 52 ∧ e > -1074 then 1 else 2

theorem reach_bounds (m : ℕ) (e : ℤ) : 1 ≤ reach m e ∧ reach m e ≤ 2 := by
  unfold reach
  split <;> omega

/-- What reads back as `m * 2 ^ e`. The ends of the interval belong to it when the mantissa is
even. -/
def ReadsAs (m : ℕ) (e : ℤ) (y : ℚ) : Prop :=
  if m % 2 = 0 then
    ((4 * m - reach m e : ℕ) : ℚ) * 2 ^ (e - 2) ≤ y ∧ y ≤ ((4 * m + 2 : ℕ) : ℚ) * 2 ^ (e - 2)
  else ((4 * m - reach m e : ℕ) : ℚ) * 2 ^ (e - 2) < y ∧ y < ((4 * m + 2 : ℕ) : ℚ) * 2 ^ (e - 2)

instance (m : ℕ) (e : ℤ) (y : ℚ) : Decidable (ReadsAs m e y) := by
  unfold ReadsAs
  infer_instance

/-- One place of the search: of the two multiples next to the double, one that reads back. -/
theorem shortestAt_eq (tie : Tie) (m : ℕ) (e place : ℤ) : shortestAt tie m e place =
    let num := 4 * m * numeratorUnit (e - 2) (-place)
    let den := denominator (e - 2) (-place)
    let down := num / den
    match decide (ReadsAs m e (down * 10 ^ place)),
      decide (ReadsAs m e ((down + 1 : ℕ) * 10 ^ place)) with
    | true, true => some (roundQuotient tie num den)
    | true, false => some down
    | false, true => some (down + 1)
    | false, false => none := by
  have inside (c : ℕ) : (if m % 2 = 0 then
        decide (4 * m * numeratorUnit (e - 2) (-place) -
          reach m e * numeratorUnit (e - 2) (-place) ≤ c * denominator (e - 2) (-place)) &&
        decide (c * denominator (e - 2) (-place) ≤ 4 * m * numeratorUnit (e - 2) (-place) +
          2 * numeratorUnit (e - 2) (-place))
      else decide (4 * m * numeratorUnit (e - 2) (-place) -
          reach m e * numeratorUnit (e - 2) (-place) < c * denominator (e - 2) (-place)) &&
        decide (c * denominator (e - 2) (-place) < 4 * m * numeratorUnit (e - 2) (-place) +
          2 * numeratorUnit (e - 2) (-place))) = decide (ReadsAs m e (c * 10 ^ place)) := by
    rw [← Nat.sub_mul, ← Nat.add_mul]
    simp only [numerator_le_iff, le_numerator_iff, numerator_lt_iff, lt_numerator_iff, ReadsAs]
    split <;> simp
  unfold shortestAt
  simp only [fraction_eq]
  simp only [← inside]
  rfl

theorem ReadsAs.bounds {m : ℕ} {e : ℤ} {y : ℚ} (h : ReadsAs m e y) :
    ((4 * m - reach m e : ℕ) : ℚ) * 2 ^ (e - 2) ≤ y ∧ y ≤ ((4 * m + 2 : ℕ) : ℚ) * 2 ^ (e - 2) := by
  unfold ReadsAs at h
  split at h
  · exact h
  · exact ⟨h.1.le, h.2.le⟩

theorem readsAs_of_bounds {m : ℕ} {e : ℤ} {y : ℚ}
    (above : ((4 * m - reach m e : ℕ) : ℚ) * 2 ^ (e - 2) < y)
    (below : y < ((4 * m + 2 : ℕ) : ℚ) * 2 ^ (e - 2)) : ReadsAs m e y := by
  unfold ReadsAs
  split
  · exact ⟨above.le, below.le⟩
  · exact ⟨above, below⟩

/-- The interval that reads back, in units of the double. -/
theorem ReadsAs.units {m : ℕ} {e : ℤ} {y : ℚ} (reads : ReadsAs m e y) (positive : 0 < m) :
    m - reach m e / 4 ≤ y / 2 ^ e ∧ y / 2 ^ e ≤ m + 1 / 2 ∧
      (m % 2 = 0 ∨ m - reach m e / 4 < y / 2 ^ e ∧ y / 2 ^ e < m + 1 / 2) := by
  have unit : (0 : ℚ) < 2 ^ e := by positivity
  have quarter : (2 : ℚ) ^ (e - 2) = 2 ^ e / 4 := by
    rw [zpow_sub₀ (by norm_num)]
    norm_num
  have reached : ((4 * m - reach m e : ℕ) : ℚ) = 4 * m - reach m e := by
    have := (reach_bounds m e).2
    rw [Nat.cast_sub (by omega)]
    push_cast
    rfl
  rw [le_div_iff₀ unit, div_le_iff₀ unit, lt_div_iff₀ unit, div_lt_iff₀ unit]
  have bounds := reads.bounds
  unfold ReadsAs at reads
  rw [quarter, reached] at bounds reads
  push_cast at bounds reads
  refine ⟨by linarith, by linarith, ?_⟩
  split at reads
  next even => exact .inl even
  next => exact .inr ⟨by linarith, by linarith⟩

section

variable {tie : Tie} {m : ℕ} {e place : ℤ}

/-- The double lies between two multiples of a power of ten. -/
theorem down_bounds (m : ℕ) (e place : ℤ) :
    let down := 4 * m * numeratorUnit (e - 2) (-place) / denominator (e - 2) (-place)
    (down : ℚ) * 10 ^ place ≤ (4 * m : ℕ) * 2 ^ (e - 2) ∧
      ((4 * m : ℕ) : ℚ) * 2 ^ (e - 2) < (down + 1 : ℕ) * 10 ^ place := by
  intro down
  rw [← le_numerator_iff, ← numerator_lt_iff]
  exact ⟨Nat.div_mul_le_self _ _, Nat.lt_mul_of_div_lt (Nat.lt_succ_self _) (denominator_pos _ _)⟩

/-- What is found reads back, and is not far above the double. -/
theorem shortestAt_some {digits : ℕ} (found : shortestAt tie m e place = some digits) :
    ReadsAs m e (digits * 10 ^ place) ∧
      (digits : ℚ) * 10 ^ place ≤ (4 * m : ℕ) * 2 ^ (e - 2) + 10 ^ place := by
  have between := (down_bounds m e place).1
  have bounds := roundQuotient_bounds tie (4 * m * numeratorUnit (e - 2) (-place))
    (denominator (e - 2) (-place))
  rw [shortestAt_eq] at found
  dsimp only at found between
  generalize 4 * m * numeratorUnit (e - 2) (-place) = num at *
  generalize denominator (e - 2) (-place) = den at *
  have next : ((num / den + 1 : ℕ) : ℚ) * 10 ^ place ≤ (4 * m : ℕ) * 2 ^ (e - 2) + 10 ^ place := by
    push_cast at between ⊢
    linarith
  have first : ((num / den : ℕ) : ℚ) * 10 ^ place ≤ (4 * m : ℕ) * 2 ^ (e - 2) + 10 ^ place := by
    have ten : (0 : ℚ) < 10 ^ place := by positivity
    linarith
  split at found
  next down up =>
    have down := of_decide_eq_true down
    have up := of_decide_eq_true up
    obtain rfl := Option.some.inj found
    rcases (show roundQuotient tie num den = num / den ∨ roundQuotient tie num den = num / den + 1
      by omega) with same | same
    · rw [same]
      exact ⟨down, first⟩
    · rw [same]
      exact ⟨up, next⟩
  next down _ =>
    obtain rfl := Option.some.inj found
    exact ⟨of_decide_eq_true down, first⟩
  next _ up =>
    obtain rfl := Option.some.inj found
    exact ⟨of_decide_eq_true up, next⟩
  next => cases found

/-- Where nothing is found, the interval is shorter than a power of ten. -/
theorem shortestAt_none (nothing : shortestAt tie m e place = none) (positive : 0 < m) :
    3 * 2 ^ (e - 2) ≤ (10 : ℚ) ^ place := by
  obtain ⟨least, most⟩ := reach_bounds m e
  obtain ⟨lower, upper⟩ := down_bounds m e place
  rw [shortestAt_eq] at nothing
  dsimp only at nothing lower upper
  generalize 4 * m * numeratorUnit (e - 2) (-place) / denominator (e - 2) (-place) = down at *
  have quarter : (0 : ℚ) < 2 ^ (e - 2) := by positivity
  split at nothing
  next => cases nothing
  next => cases nothing
  next => cases nothing
  next outside outside' =>
    have outside := of_decide_eq_false outside
    have outside' := of_decide_eq_false outside'
    have reached : ((4 * m - reach m e : ℕ) : ℚ) = 4 * m - reach m e := by
      rw [Nat.cast_sub (by omega)]
      push_cast
      rfl
    have least : (1 : ℚ) ≤ reach m e := by exact_mod_cast least
    have below : (down : ℚ) * 10 ^ place ≤ ((4 * m - reach m e : ℕ) : ℚ) * 2 ^ (e - 2) := by
      by_contra above
      refine outside (readsAs_of_bounds (not_le.mp above) (lower.trans_lt ?_))
      push_cast
      linarith
    have above : ((4 * m + 2 : ℕ) : ℚ) * 2 ^ (e - 2) ≤ ((down + 1 : ℕ) : ℚ) * 10 ^ place := by
      by_contra below
      refine outside' (readsAs_of_bounds (lt_of_le_of_lt ?_ upper) (not_le.mp below))
      rw [reached]
      push_cast
      nlinarith
    rw [reached] at below
    push_cast at above
    nlinarith

/-! ### The search -/

/-- A search that starts where the powers of ten are not much smaller than the interval, and may go
on until they are, finds a decimal on the way. -/
theorem shortestFrom_spec (positive : 0 < m) {more : ℕ}
    (near : 3 * 2 ^ (e - 2) ≤ 10 * (10 : ℚ) ^ place)
    (ends : 10 * (10 : ℚ) ^ (place - more) < 3 * 2 ^ (e - 2)) :
    ∃ d, shortestFrom tie m e more place = d ∧ shortestAt tie m e d.exponent = some d.digits ∧
      3 * 2 ^ (e - 2) ≤ 10 * (10 : ℚ) ^ d.exponent ∧ place - more < d.exponent ∧
      d.exponent ≤ place := by
  induction more generalizing place with
  | zero =>
    rw [Nat.cast_zero, sub_zero] at ends
    exact absurd ends (not_lt.mpr near)
  | succ more ih =>
    rw [shortestFrom]
    cases found : shortestAt tie m e place with
    | some digits => exact ⟨⟨digits, place⟩, rfl, found, near, by dsimp only; omega, le_rfl⟩
    | none =>
      have short := shortestAt_none found positive
      have near : 3 * 2 ^ (e - 2) ≤ 10 * (10 : ℚ) ^ (place - 1) := by
        rw [zpow_sub_one₀ (by norm_num)]
        linarith
      rw [Nat.cast_succ, ← sub_sub_sub_cancel_right _ _ 1, add_sub_cancel_right] at ends
      obtain ⟨d, result, found, near, above, below⟩ := ih near ends
      exact ⟨d, result, found, near, by omega, by omega⟩

/-- The place from which the search starts, for a double of `k` binary digits before the point. -/
def startPlace (k : ℤ) : ℤ := k * 30103 / 100000 + 2

/-- The search starts above all doubles of its length, and reaches the smallest unit they can have
within its steps. -/
theorem startPlace_bounds (k : Fin 2098) :
    1 * numeratorUnit (k - 1073) (-startPlace (k - 1073)) ≤
        1 * denominator (k - 1073) (-startPlace (k - 1073)) ∧
      10 * denominator (k - 1073 - 55) (-(startPlace (k - 1073) - 24)) <
        3 * numeratorUnit (k - 1073 - 55) (-(startPlace (k - 1073) - 24)) := by
  revert k
  decide +kernel

theorem startPlace_spec {k : ℤ} (least : -1073 ≤ k) (most : k < 1025) :
    (2 : ℚ) ^ k ≤ 10 ^ startPlace k ∧ 10 * (10 : ℚ) ^ (startPlace k - 24) < 3 * 2 ^ (k - 55) := by
  obtain ⟨above, below⟩ := startPlace_bounds ⟨(k + 1073).toNat, by omega⟩
  have same : (((k + 1073).toNat : ℕ) : ℤ) - 1073 = k := by omega
  rw [numerator_le_iff, same] at above
  rw [lt_numerator_iff, same] at below
  simpa using And.intro above below

/-- What is known of the shortest decimal: it reads back as the double, and it has at most
seventeen digits. -/
structure Shortest (m : ℕ) (e : ℤ) (d : Decimal) : Prop where
  readsAs : ReadsAs m e (d.digits * 10 ^ d.exponent)
  digits_pos : 0 < d.digits
  digits_lt : d.digits < 2 ^ 57
  least : -400 < d.exponent
  most : d.exponent < 400

theorem shortest_spec (tie : Tie) (positive : 0 < m) (h : Canonical m e) (top : e ≤ 971) :
    Shortest m e (shortest tie m e) := by
  have bits := h.log2_le
  have bottom := h.least
  have unit : (0 : ℚ) < 2 ^ (e - 2) := by positivity
  obtain ⟨above, below⟩ := @startPlace_spec (m.log2 + e + 1) (by omega) (by omega)
  have start : ceiling m e = startPlace (m.log2 + e + 1) := rfl
  have near : 3 * 2 ^ (e - 2) ≤ 10 * (10 : ℚ) ^ ceiling m e := by
    have small : (2 : ℚ) ^ (e - 2) ≤ 2 ^ (m.log2 + e + 1) :=
      zpow_le_zpow_right₀ (by norm_num) (by omega)
    have ten : (0 : ℚ) < 10 ^ ceiling m e := by positivity
    rw [← start] at above
    linarith
  have ends : 10 * (10 : ℚ) ^ (ceiling m e - (24 : ℕ)) < 3 * 2 ^ (e - 2) := by
    have small : (2 : ℚ) ^ (m.log2 + e + 1 - 55) ≤ 2 ^ (e - 2) :=
      zpow_le_zpow_right₀ (by norm_num) (by omega)
    rw [start]
    push_cast
    linarith
  obtain ⟨d, result, found, near, after, before⟩ :=
    @shortestFrom_spec tie m e (ceiling m e) positive 24 near ends
  have place : -324 ≤ ceiling m e ∧ ceiling m e ≤ 312 := by
    rw [start, startPlace]
    omega
  obtain ⟨reads, close⟩ := shortestAt_some found
  have ten : (0 : ℚ) < 10 ^ d.exponent := by positivity
  rw [shortest, result]
  exact {
    readsAs := reads
    digits_pos := by
      refine Nat.pos_of_ne_zero fun zero => ?_
      have low := reads.bounds.1
      rw [zero, Nat.cast_zero, zero_mul] at low
      have some : (0 : ℚ) < ((4 * m - reach m e : ℕ) : ℚ) := by
        have := (reach_bounds m e).2
        exact Nat.cast_pos.mpr (by omega)
      exact absurd low (not_le.mpr (mul_pos some unit))
    digits_lt := by
      have mantissa : (m : ℚ) < 2 ^ 53 := by exact_mod_cast h.bounded
      have bound : (d.digits : ℚ) * 10 ^ d.exponent < 2 ^ 57 * 10 ^ d.exponent := by
        push_cast at close
        nlinarith
      exact_mod_cast lt_of_mul_lt_mul_right bound ten.le
    least := by omega
    most := by omega }

end

end LeastSquares.Decimal
