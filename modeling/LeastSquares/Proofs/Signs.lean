import LeastSquares.Proofs.Comparison
import LeastSquares.Proofs.Rounding

/-!
# Signs in double precision

Products, quotients and sums of doubles that are not less than zero are not less than zero, whether
they are numbers or not. No sum with a positive double is zero.
-/
namespace LeastSquares.Double

open Float.Model UnpackedFloat

/-! ### Signs of what is unpacked -/

/-- Of the sign `s`, unless it is a zero, which may have any sign, or not a number. -/
def Signed (s : Sign) : UnpackedFloat → Prop
  | .infinity s' | .finite s' .. => s' = s
  | _ => True

/-- Of the sign `s` and not zero, unless it is not a number. -/
def Strict (s : Sign) : UnpackedFloat → Prop
  | .infinity s' | .finite s' .. => s' = s
  | .notANumber => True
  | .zero _ => False

theorem Signed.cases {s : Sign} {u : UnpackedFloat} (h : Signed s u) :
    u = .notANumber ∨ u = .infinity s ∨ (∃ s', u = .zero s') ∨
      ∃ m e positive, u = .finite s m e positive := by
  cases u with
  | notANumber => exact .inl rfl
  | infinity s' => exact .inr (.inl (congrArg _ h))
  | zero s' => exact .inr (.inr (.inl ⟨s', rfl⟩))
  | finite s' m e positive =>
    obtain rfl : s' = s := h
    exact .inr (.inr (.inr ⟨m, e, positive, rfl⟩))

theorem Strict.signed {s : Sign} {u : UnpackedFloat} (h : Strict s u) : Signed s u := by
  cases u with
  | zero s' => trivial
  | _ => exact h

theorem Strict.cases {s : Sign} {u : UnpackedFloat} (h : Strict s u) :
    u = .notANumber ∨ u = .infinity s ∨ ∃ m e positive, u = .finite s m e positive := by
  rcases h.signed.cases with rfl | rfl | ⟨s', rfl⟩ | finite
  · exact .inl rfl
  · exact .inr (.inl rfl)
  · exact h.elim
  · exact .inr (.inr finite)

theorem not_lt_zero_iff (x : Float) : ¬ x < 0 ↔ Signed .positive x.toModel.unpack := by
  have decided : x < 0 ↔ x.toModel.unpack.compare (.zero .positive) = some .lt :=
    decide_eq_true_iff.trans beq_iff_eq
  rw [decided]
  cases x.toModel.unpack with
  | notANumber => exact iff_of_true nofun trivial
  | infinity s => cases s <;> simp [UnpackedFloat.compare, Signed]
  | zero s => simp [UnpackedFloat.compare, Signed]
  | finite s m e positive => cases s <;> simp [UnpackedFloat.compare, Signed]

theorem not_zero_lt_iff (x : Float) : ¬ 0 < x ↔ Signed .negative x.toModel.unpack := by
  have decided : 0 < x ↔ (UnpackedFloat.zero .positive).compare x.toModel.unpack = some .lt :=
    decide_eq_true_iff.trans beq_iff_eq
  rw [decided]
  cases x.toModel.unpack with
  | notANumber => exact iff_of_true nofun trivial
  | infinity s => cases s <;> simp [UnpackedFloat.compare, Signed]
  | zero s => simp [UnpackedFloat.compare, Signed]
  | finite s m e positive => cases s <;> simp [UnpackedFloat.compare, Signed]

theorem not_le_zero_iff (x : Float) : ¬ x ≤ 0 ↔ Strict .positive x.toModel.unpack := by
  have decided : x ≤ 0 ↔ (x.toModel.unpack.compare (.zero .positive)).any Ordering.isLE :=
    decide_eq_true_iff
  rw [decided]
  cases x.toModel.unpack with
  | notANumber => exact iff_of_true nofun trivial
  | infinity s => cases s <;> simp [UnpackedFloat.compare, Strict]
  | zero s => exact iff_of_false (not_not_intro rfl) id
  | finite s m e positive => cases s <;> simp [UnpackedFloat.compare, Strict]

/-! ### Packing and rounding -/

theorem signed_unpack (s : Sign) (e : BitVec 11) (m : BitVec 52) :
    Signed s (UnpackedFloat.unpack .binary64 (packComponents .binary64 s e m)) := by
  rw [unpack_packComponents]
  split
  · split
    · rfl
    · trivial
  · split
    · split
      · trivial
      · rfl
    · rfl

theorem signed_pack {s : Sign} {u : UnpackedFloat} (h : Signed s u) :
    Signed s (UnpackedFloat.unpack .binary64 (UnpackedFloat.pack .binary64 u)) := by
  rcases h.cases with rfl | rfl | ⟨s', rfl⟩ | ⟨m, e, positive, rfl⟩
  · rw [UnpackedFloat.pack, unpack_packedNaN]
    trivial
  · exact signed_unpack s _ _
  · rw [UnpackedFloat.pack, unpack_packedZero]
    trivial
  · rw [UnpackedFloat.pack]
    dsimp only
    split
    · exact signed_unpack s _ _
    · split <;> exact signed_unpack s _ _

theorem signed_roundWithAccuracy (s : Sign) (m : ℕ) (e : ℤ) (rest : Accuracy) :
    Signed s (roundWithAccuracy .binary64 s m e rest) := by
  unfold roundWithAccuracy
  dsimp only
  split
  · trivial
  · rfl

/-- The mantissa, if there is one, is one that can be packed. -/
def Packable : UnpackedFloat → Prop
  | .finite _ m e _ => Canonical m e
  | _ => True

theorem packable_unpack (x : Float) : Packable x.toModel.unpack := by
  cases unpacked : x.toModel.unpack with
  | finite s m e positive => exact (canonical_of_unpack unpacked).1
  | _ => trivial

theorem strict_pack {s : Sign} {u : UnpackedFloat} (h : Strict s u) (packable : Packable u) :
    Strict s (UnpackedFloat.unpack .binary64 (UnpackedFloat.pack .binary64 u)) := by
  rcases h.cases with rfl | rfl | ⟨m, e, positive, rfl⟩
  · rw [UnpackedFloat.pack, unpack_packedNaN]
    trivial
  · cases s <;> rfl
  · rw [unpack_pack_finite _ _ packable]
    split <;> rfl

/-! ### Operations on what is unpacked -/

variable {s t : Sign} {u v : UnpackedFloat}

theorem signed_mul (left : Signed s u) (right : Signed t v) :
    Signed (s * t) (u.mul .binary64 v) := by
  rcases left.cases with rfl | rfl | ⟨s', rfl⟩ | ⟨m, e, positive, rfl⟩ <;>
    rcases right.cases with rfl | rfl | ⟨t', rfl⟩ | ⟨m', e', positive', rfl⟩ <;>
    first | trivial | rfl | exact signed_roundWithAccuracy _ _ _ _

theorem signed_div (left : Signed s u) (right : Strict t v) :
    Signed (s / t) (u.div .binary64 v) := by
  rcases left.cases with rfl | rfl | ⟨s', rfl⟩ | ⟨m, e, positive, rfl⟩ <;>
    rcases right.cases with rfl | rfl | ⟨m', e', positive', rfl⟩ <;>
    first | trivial | rfl | exact signed_roundWithAccuracy _ _ _ _

/-- A square is not less than zero, whatever is squared. -/
theorem signed_square (u : UnpackedFloat) : Signed .positive (u.mul .binary64 u) := by
  cases u with
  | notANumber => trivial
  | infinity s => cases s <;> rfl
  | zero s => trivial
  | finite s m e positive => cases s <;> exact signed_roundWithAccuracy .positive _ _ _

theorem add_finite {m m' : ℕ} {e e' : ℤ} (positive : 0 < m) (positive' : 0 < m')
    (h : Canonical m e) (h' : Canonical m' e') :
    Strict .positive (UnpackedFloat.add .binary64 (.finite .positive m e positive)
        (.finite .positive m' e' positive')) ∧
      Packable (UnpackedFloat.add .binary64 (.finite .positive m e positive)
        (.finite .positive m' e' positive')) := by
  have sum : 0 < m <<< (e - min e e').toNat + m' <<< (e' - min e e').toNat := by
    rw [Nat.shiftLeft_eq, Nat.shiftLeft_eq]
    positivity
  obtain ⟨k, d, more, rounded, canonical⟩ :=
    round_canonical .positive sum (le_min h.least h'.least)
  have added : UnpackedFloat.add .binary64 (.finite .positive m e positive)
      (.finite .positive m' e' positive') = .finite .positive k d more := by
    rw [← rounded]
    change UnpackedFloat.normalize .binary64 (((m <<< (e - min e e').toNat : ℕ) : ℤ) +
      ((m' <<< (e' - min e e').toNat : ℕ) : ℤ)) (min e e') .positive = _
    rw [← Int.natCast_add, UnpackedFloat.normalize, Int.compare_eq_gt.mpr (Int.natCast_pos.mpr sum)]
    rfl
  rw [added]
  exact ⟨rfl, canonical⟩

/-- No sum with something positive is zero. -/
theorem strict_add (left : Strict .positive u) (right : Signed .positive v)
    (packable : Packable u) (packable' : Packable v) :
    Strict .positive (u.add .binary64 v) ∧ Packable (u.add .binary64 v) := by
  rcases left.cases with rfl | rfl | ⟨m, e, positive, rfl⟩ <;>
    rcases right.cases with rfl | rfl | ⟨s', rfl⟩ | ⟨m', e', positive', rfl⟩ <;>
    first
    | exact ⟨trivial, trivial⟩
    | exact ⟨rfl, trivial⟩
    | exact ⟨rfl, packable⟩
    | exact add_finite _ _ packable packable'

theorem signed_add (left : Signed .positive u) (right : Signed .positive v)
    (packable : Packable u) (packable' : Packable v) :
    Signed .positive (u.add .binary64 v) := by
  rcases left.cases with rfl | rfl | ⟨s, rfl⟩ | ⟨m, e, positive, rfl⟩
  · trivial
  · have strict : Strict .positive (.infinity .positive) := rfl
    exact (strict_add strict right packable packable').1.signed
  · rcases right.cases with rfl | rfl | ⟨s', rfl⟩ | ⟨m', e', positive', rfl⟩
    · trivial
    · rfl
    · cases s <;> cases s' <;> trivial
    · rfl
  · have strict : Strict .positive (.finite .positive m e positive) := rfl
    exact (strict_add strict right packable packable').1.signed

/-! ### Operations -/

variable {x y : Float}

theorem mul_not_neg (left : ¬ x < 0) (right : ¬ y < 0) : ¬ x * y < 0 := by
  rw [not_lt_zero_iff] at *
  exact signed_pack (signed_mul left right)

theorem square_not_neg (x : Float) : ¬ x * x < 0 := by
  rw [not_lt_zero_iff]
  exact signed_pack (signed_square _)

theorem div_not_neg (left : ¬ x < 0) (right : ¬ y ≤ 0) : ¬ x / y < 0 := by
  rw [not_lt_zero_iff] at *
  rw [not_le_zero_iff] at right
  exact signed_pack (signed_div left right)

/-- Something negative divided by something positive is not positive. -/
theorem div_not_pos (left : ¬ 0 < x) (right : ¬ y ≤ 0) : ¬ 0 < x / y := by
  rw [not_zero_lt_iff] at *
  rw [not_le_zero_iff] at right
  exact signed_pack (signed_div left right)

theorem add_not_neg (left : ¬ x < 0) (right : ¬ y < 0) : ¬ x + y < 0 := by
  rw [not_lt_zero_iff] at *
  exact signed_pack (signed_add left right (packable_unpack x) (packable_unpack y))

theorem add_not_nonpos (left : ¬ x ≤ 0) (right : ¬ y < 0) : ¬ x + y ≤ 0 := by
  rw [not_le_zero_iff] at *
  rw [not_lt_zero_iff] at right
  obtain ⟨strict, packable⟩ := strict_add left right (packable_unpack x) (packable_unpack y)
  exact strict_pack strict packable

end LeastSquares.Double
