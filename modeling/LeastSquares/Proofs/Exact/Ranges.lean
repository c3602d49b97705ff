import LeastSquares.Proofs.Exact.Overflow

/-!
# Ranges of the guarded norm

Why everything that the guarded norm computes is bounded. A relative sum is at most the number of
the components that it stands for, because each counts for the square of a quotient that is at most
one, and a new maximum only makes the quotients of the others smaller. The squares that are summed
directly are so small that there is room for one for each component.
-/
namespace LeastSquares

theorem quotient_bounds {a b : ℝ} (nonneg : 0 ≤ a) (le : a ≤ b) : 0 ≤ a / b ∧ a / b ≤ 1 :=
  ⟨div_nonneg nonneg (nonneg.trans le), div_le_one_of_le₀ le (nonneg.trans le)⟩

/-! ### Counting -/

theorem countP_snoc {p : ℝ → Prop} [DecidablePred p] (x : List ℝ) (v : ℝ) :
    (x ++ [v]).countP (fun v => p v) = x.countP (fun v => p v) + if p v then 1 else 0 := by
  rw [List.countP_append, List.countP_singleton]
  simp

/-- The classes are apart and leave nothing out. -/
theorem count_classes (low high : ℝ) (x : List ℝ) :
    x.countP (fun v => low < |v| ∧ ¬ |v| < high) + x.countP (fun v => low < |v| ∧ |v| < high) +
      x.countP (fun v => ¬ low < |v|) = x.length := by
  induction x with
  | nil => rfl
  | cons v x ih =>
    simp only [List.countP_cons, List.length_cons, ← ih]
    by_cases above : low < |v| <;> by_cases below : |v| < high <;> simp [above, below] <;> omega

namespace SquareSums

variable {low high : ℝ} {x : List ℝ} {s : SquareSums ℝ} {v : ℝ}

/-! ### Relative sums -/

theorem Relative.rescaled_le {sum max total size : ℝ} (h : Relative sum max total)
    (larger : max < size) : 1 + sum * (max / size) * (max / size) ≤ sum + 1 := by
  obtain ⟨nonneg, le⟩ := quotient_bounds h.max_nonneg larger.le
  rw [mul_assoc, add_comm]
  gcongr
  exact mul_le_of_le_one_right h.sum_nonneg (mul_le_one₀ le nonneg le)

theorem extended_le {sum max size : ℝ} (nonneg : 0 ≤ size) (le : size ≤ max) :
    sum + size / max * (size / max) ≤ sum + 1 := by
  obtain ⟨nonneg, le⟩ := quotient_bounds nonneg le
  gcongr
  exact mul_le_one₀ le nonneg le

/-- A relative sum is at most the number of the components that it stands for, and the largest of
these is of their class. -/
structure Counted (low high : ℝ) (x : List ℝ) (s : SquareSums ℝ) : Prop where
  large : s.large ≤ x.countP fun v => low < |v| ∧ ¬ |v| < high
  small : s.small ≤ x.countP fun v => ¬ low < |v|
  largeMax : s.large ≠ 0 → low < s.largeMax ∧ high ≤ s.largeMax
  smallMax : s.smallMax ≤ low

theorem counted_zero (nonneg : 0 ≤ low) : Counted low high [] zero where
  large := le_of_eq (Nat.cast_zero).symm
  small := le_of_eq (Nat.cast_zero).symm
  largeMax none := absurd rfl none
  smallMax := nonneg

namespace Counted

theorem add_medium (h : Counted low high x s) (inside : low < |v| ∧ |v| < high) (medium : ℝ) :
    Counted low high (x ++ [v]) { s with medium } where
  large := by
    rw [countP_snoc, if_neg fun large => large.2 inside.2]
    exact h.large
  small := by
    rw [countP_snoc, if_neg (not_not_intro inside.1)]
    exact h.small
  largeMax := h.largeMax
  smallMax := h.smallMax

theorem add_large {sum max : ℝ} (h : Counted low high x s) (beyond : low < |v| ∧ ¬ |v| < high)
    (grown : sum ≤ s.large + 1) (reached : low < max ∧ high ≤ max) :
    Counted low high (x ++ [v]) { s with large := sum, largeMax := max } where
  large := by
    rw [countP_snoc, if_pos beyond]
    push_cast
    linarith [h.large]
  small := by
    rw [countP_snoc, if_neg (not_not_intro beyond.1)]
    exact h.small
  largeMax _ := reached
  smallMax := h.smallMax

theorem add_small {sum max : ℝ} (h : Counted low high x s) (below : ¬ low < |v|)
    (grown : sum ≤ s.small + 1) (bounded : max ≤ low) :
    Counted low high (x ++ [v]) { s with small := sum, smallMax := max } where
  large := by
    rw [countP_snoc, if_neg fun large => below large.1]
    exact h.large
  small := by
    rw [countP_snoc, if_pos below]
    push_cast
    linarith [h.small]
  largeMax := h.largeMax
  smallMax := bounded

/-- One more component. -/
theorem add (h : Counted low high x s) (accounts : Accounts low high x s) (v : ℝ) :
    Counted low high (x ++ [v]) (s.add low high |v|) := by
  have added := s.added low high |v|
  generalize s.add low high |v| = t at added ⊢
  cases added with
  | medium above below => exact h.add_medium ⟨above, below⟩ _
  | largest above beyond new =>
    exact h.add_large ⟨above, beyond⟩ (accounts.large.rescaled_le new) ⟨above, not_lt.mp beyond⟩
  | large above beyond old =>
    have old : |v| ≤ s.largeMax := not_lt.mp old
    exact h.add_large ⟨above, beyond⟩ (extended_le (abs_nonneg v) old)
      ⟨lt_of_lt_of_le above old, (not_lt.mp beyond).trans old⟩
  | smallest below new =>
    exact h.add_small below (accounts.small.rescaled_le new) (not_lt.mp below)
  | small below old nonzero =>
    exact h.add_small below (extended_le (abs_nonneg v) (not_lt.mp old)) h.smallMax
  | nothing below old zero =>
    exact h.add_small (s := s) below (by linarith) h.smallMax

theorem large_le_length (h : Counted low high x s) : s.large ≤ x.length :=
  h.large.trans (by exact_mod_cast List.countP_le_length)

theorem small_le_length (h : Counted low high x s) : s.small ≤ x.length :=
  h.small.trans (by exact_mod_cast List.countP_le_length)

end Counted

/-! ### Accounting for a component -/

/-- What is computed for a component: its square, nothing, or a quotient of magnitudes of its class,
the smaller by the larger, and a relative sum with it. -/
theorem workings_cases (accounts : Accounts low high x s) (v : ℝ) :
    ((low < |v| ∧ |v| < high) ∧ s.workings low high |v| =
      { squares := [|v| * |v|], others := [s.medium + |v| * |v|] }) ∨
    s.workings low high |v| = {} ∨
    ∃ sum ratio, (sum = s.large ∨ sum = s.small) ∧ (0 ≤ ratio ∧ ratio ≤ 1) ∧
      (s.workings low high |v| = rescaling sum ratio ∨
        s.workings low high |v| = extending sum ratio) := by
  have extended {max : ℝ} (old : ¬ |v| > max) := quotient_bounds (abs_nonneg v) (not_lt.mp old)
  unfold workings
  split
  next inside => exact .inl ⟨inside, rfl⟩
  next =>
    refine .inr ?_
    split
    next above =>
      split
      next new =>
        have rescaled := quotient_bounds accounts.large.max_nonneg (le_of_lt new)
        exact .inr ⟨_, _, .inl rfl, rescaled, .inl rfl⟩
      next old => exact .inr ⟨_, _, .inl rfl, extended old, .inr rfl⟩
    next below =>
      split
      next new =>
        have rescaled := quotient_bounds accounts.small.max_nonneg (le_of_lt new)
        exact .inr ⟨_, _, .inr rfl, rescaled, .inl rfl⟩
      next old =>
        split
        next => exact .inr ⟨_, _, .inr rfl, extended old, .inr rfl⟩
        next => exact .inl rfl

theorem workings_quotients (accounts : Accounts low high x s) (v : ℝ) :
    ∀ r ∈ (s.workings low high |v|).quotients, 0 ≤ r ∧ r ≤ 1 := by
  intro r member
  obtain ⟨-, none⟩ | none | ⟨sum, ratio, -, bounds, step | step⟩ := workings_cases accounts v
  · rw [none] at member
    cases member
  · rw [none] at member
    cases member
  · rw [step] at member
    exact List.mem_singleton.mp member ▸ bounds
  · rw [step] at member
    exact List.mem_singleton.mp member ▸ bounds

/-- Squares are summed directly between the bounds of the two other classes. -/
theorem workings_squares (nonneg : 0 ≤ low) (accounts : Accounts low high x s) (v : ℝ) :
    ∀ q ∈ (s.workings low high |v|).squares, low ^ 2 ≤ q ∧ q ≤ high ^ 2 := by
  intro q member
  obtain ⟨inside, step⟩ | none | ⟨sum, ratio, -, -, none | none⟩ := workings_cases accounts v
  · rw [step] at member
    rw [List.mem_singleton.mp member, ← pow_two]
    exact ⟨pow_le_pow_left₀ nonneg inside.1.le 2,
      pow_le_pow_left₀ (abs_nonneg v) inside.2.le 2⟩
  all_goals
    rw [none] at member
    cases member

theorem rescaling_inRange {sum ratio : ℝ} (nonneg : 0 ≤ sum) (quotient : 0 ≤ ratio ∧ ratio ≤ 1)
    (fits : sum + 1 ≤ maxFinite) : (rescaling sum ratio).InRange := by
  obtain ⟨zero, one⟩ := quotient
  have once : sum * ratio ≤ sum := mul_le_of_le_one_right nonneg one
  have twice : sum * ratio * ratio ≤ sum :=
    (mul_le_of_le_one_right (mul_nonneg nonneg zero) one).trans once
  refine rescaling_inRange_iff.mpr ⟨inRange_of_le zero ?_, inRange_of_le (by positivity) ?_,
    inRange_of_le (by positivity) ?_, inRange_of_le (by positivity) ?_⟩ <;> linarith

theorem extending_inRange {sum ratio : ℝ} (nonneg : 0 ≤ sum) (quotient : 0 ≤ ratio ∧ ratio ≤ 1)
    (fits : sum + 1 ≤ maxFinite) : (extending sum ratio).InRange := by
  obtain ⟨zero, one⟩ := quotient
  have square : ratio * ratio ≤ 1 := mul_le_one₀ one zero one
  refine extending_inRange_iff.mpr ⟨inRange_of_le zero ?_, inRange_of_le (by positivity) ?_,
    inRange_of_le (by positivity) ?_⟩ <;> linarith

theorem Accounts.medium_nonneg (h : Accounts low high x s) : 0 ≤ s.medium :=
  h.medium ▸ squaresWhere_nonneg x

theorem Accounts.medium_le (h : Accounts low high x s) :
    s.medium ≤ x.countP (fun v => low < |v| ∧ |v| < high) * high ^ 2 :=
  h.medium ▸ squaresWhere_le_count (fun _ inside => inside.2.le) x

theorem Accounts.medium_le_length (h : Accounts low high x s) :
    s.medium ≤ x.length * high ^ 2 := by
  refine h.medium_le.trans ?_
  gcongr
  exact List.countP_le_length

/-- A component is accounted for within the range, if the number of the components fits in it and so
does the bound of the sum of squares. -/
theorem workings_inRange (accounts : Accounts low high x s) (counted : Counted low high x s) (v : ℝ)
    (fits : (x.length : ℝ) + 1 ≤ maxFinite) (room : (x.length + 1) * high ^ 2 ≤ maxFinite) :
    (s.workings low high |v|).InRange := by
  obtain ⟨inside, step⟩ | none | ⟨sum, ratio, which, bounds, step⟩ := workings_cases accounts v
  · have square : |v| * |v| ≤ high ^ 2 := by
      rw [← pow_two]
      exact pow_le_pow_left₀ (abs_nonneg v) inside.2.le 2
    have before := accounts.medium_le_length
    have nonneg := accounts.medium_nonneg
    have positive : 0 ≤ |v| * |v| := by positivity
    rw [step, Workings.inRange_iff]
    refine ⟨List.forall_mem_nil _, List.forall_mem_singleton.mpr (inRange_of_le positive ?_),
      List.forall_mem_singleton.mpr (inRange_of_le (by positivity) ?_)⟩ <;> linarith
  · rw [none]
    exact List.forall_mem_nil _
  · have nonneg : 0 ≤ sum := by
      rcases which with rfl | rfl
      · exact accounts.large.sum_nonneg
      · exact accounts.small.sum_nonneg
    have counted : sum ≤ x.length := by
      rcases which with rfl | rfl
      · exact counted.large_le_length
      · exact counted.small_le_length
    rcases step with step | step
    · rw [step]
      exact rescaling_inRange nonneg bounds (by linarith)
    · rw [step]
      exact extending_inRange nonneg bounds (by linarith)

/-! ### Taking the root -/

theorem rootWorkings_quotients (accounts : Accounts low high x s) :
    ∀ r ∈ s.rootWorkings.quotients, 0 ≤ r ∧ r ≤ 1 := by
  unfold rootWorkings
  split
  · exact List.forall_mem_nil _
  · split
    · split
      next outweighs =>
        exact List.forall_mem_singleton.mpr (quotient_bounds accounts.small.max_nonneg outweighs)
      next outweighed =>
        exact List.forall_mem_singleton.mpr
          (quotient_bounds accounts.medium_nonneg (le_of_lt (not_le.mp outweighed)))
    · exact List.forall_mem_nil _

/-- Relative to a large component, each square that is summed directly is at most one. -/
theorem relative_le (accounts : Accounts low high x s) (counted : Counted low high x s)
    (nonneg : 0 ≤ low) (bound : 0 ≤ high) (large : s.large ≠ 0) :
    s.medium / s.largeMax / s.largeMax ≤ x.countP fun v => low < |v| ∧ |v| < high := by
  obtain ⟨above, beyond⟩ := counted.largeMax large
  have positive : 0 < s.largeMax := nonneg.trans_lt above
  rw [div_div, div_le_iff₀ (mul_pos positive positive), ← pow_two]
  refine accounts.medium_le.trans ?_
  gcongr

theorem scaled_le (accounts : Accounts low high x s) (counted : Counted low high x s)
    (nonneg : 0 ≤ low) (bound : 0 ≤ high) (large : s.large ≠ 0) :
    s.medium / s.largeMax ≤ x.length * high := by
  obtain ⟨above, beyond⟩ := counted.largeMax large
  have positive : 0 < s.largeMax := nonneg.trans_lt above
  rw [div_le_iff₀ positive]
  calc s.medium
      ≤ x.length * high ^ 2 := accounts.medium_le_length
    _ = x.length * high * high := by ring
    _ ≤ x.length * high * s.largeMax := by gcongr

theorem total_le (accounts : Accounts low high x s) (counted : Counted low high x s)
    (nonneg : 0 ≤ low) (bound : 0 ≤ high) (large : s.large ≠ 0) :
    s.large + s.medium / s.largeMax / s.largeMax ≤ x.length := by
  have sum := add_le_add counted.large (relative_le accounts counted nonneg bound large)
  refine sum.trans ?_
  rw [← count_classes low high x]
  push_cast
  linarith [Nat.cast_nonneg (α := ℝ) (x.countP fun v => ¬ low < |v|)]

/-- A component that is summed directly keeps the bounds of the other classes apart. -/
theorem Accounts.low_lt_high (accounts : Accounts low high x s) (medium : s.medium ≠ 0) :
    low < high := by
  by_contra empty
  refine medium (accounts.medium.trans ((squaresWhere_eq_zero_iff x).mpr fun v _ inside => ?_))
  exact absurd (inside.1.trans inside.2) empty

theorem tail_le (accounts : Accounts low high x s) (counted : Counted low high x s)
    (nonneg : 0 ≤ low) (medium : s.medium ≠ 0) : s.smallMax * s.small ≤ x.length * high := by
  have apart := accounts.low_lt_high medium
  calc s.smallMax * s.small
      ≤ high * x.length := mul_le_mul (counted.smallMax.trans apart.le) counted.small_le_length
        accounts.small.sum_nonneg (nonneg.trans apart.le)
    _ = x.length * high := mul_comm ..

/-- Small components add no more to a sum of squares than those summed directly. -/
theorem whole_le (accounts : Accounts low high x s) (medium : s.medium ≠ 0) :
    s.medium + s.smallMax * (s.smallMax * s.small) ≤ x.length * high ^ 2 := by
  have apart := accounts.low_lt_high medium
  have tail : s.smallMax * (s.smallMax * s.small) ≤
      x.countP (fun v => ¬ low < |v|) * high ^ 2 := by
    calc s.smallMax * (s.smallMax * s.small)
        = squaresWhere (fun v => ¬ low < |v|) x := by
          rw [← accounts.small.total_eq]
          ring
      _ ≤ x.countP (fun v => ¬ low < |v|) * high ^ 2 :=
        squaresWhere_le_count (fun v below => (not_lt.mp below).trans apart.le) x
  have larger : (0 : ℝ) ≤ x.countP (fun v => low < |v| ∧ ¬ |v| < high) * high ^ 2 := by positivity
  have classes := congrArg (Nat.cast (R := ℝ)) (count_classes low high x)
  push_cast at classes
  rw [← classes, add_mul, add_mul]
  linarith [accounts.medium_le]

/-- Next to a large component the root is taken of no more than the number of the components. -/
theorem rootWorkings_inRange_of_large (accounts : Accounts low high x s)
    (counted : Counted low high x s) (nonneg : 0 ≤ low) (bound : 0 ≤ high) (large : s.large ≠ 0)
    (fits : (x.length : ℝ) ≤ maxFinite) (linear : x.length * high + 1 ≤ maxFinite) :
    s.rootWorkings.InRange := by
  have mediumNonneg := accounts.medium_nonneg
  have largeNonneg := accounts.large.sum_nonneg
  have largeMaxNonneg := accounts.large.max_nonneg
  have scaled := scaled_le accounts counted nonneg bound large
  have total := total_le accounts counted nonneg bound large
  have sum : InRange (s.large + s.medium / s.largeMax / s.largeMax) :=
    inRange_of_le (by positivity) (total.trans fits)
  rw [rootWorkings, if_pos (bne_iff_ne.mpr large), Workings.inRange_iff]
  simp only [List.forall_mem_cons]
  refine ⟨List.forall_mem_nil _, List.forall_mem_nil _, inRange_of_le (by positivity) ?_,
    inRange_of_le (by positivity) ?_, sum, sum.sqrt, List.forall_mem_nil _⟩ <;> linarith

/-- Otherwise, what the root is taken of is the sum of all squares. -/
theorem rootWorkings_inRange_of_medium (accounts : Accounts low high x s)
    (counted : Counted low high x s) (nonneg : 0 ≤ low) (none : ¬ (s.large != 0) = true)
    (medium : s.medium ≠ 0) (linear : x.length * high + 1 ≤ maxFinite)
    (room : x.length * high ^ 2 ≤ maxFinite) : s.rootWorkings.InRange := by
  have mediumNonneg := accounts.medium_nonneg
  have smallNonneg := accounts.small.sum_nonneg
  have smallMaxNonneg := accounts.small.max_nonneg
  have tail := tail_le accounts counted nonneg medium
  have whole := (whole_le accounts medium).trans room
  rw [rootWorkings, if_neg none, if_pos (bne_iff_ne.mpr medium)]
  split
  next outweighs =>
    obtain ⟨zero, one⟩ := quotient_bounds smallMaxNonneg outweighs
    have product : s.smallMax / s.medium * (s.smallMax * s.small) ≤ s.smallMax * s.small :=
      mul_le_of_le_one_left (by positivity) one
    have summed : s.medium * (1 + s.smallMax / s.medium * (s.smallMax * s.small)) =
        s.medium + s.smallMax * (s.smallMax * s.small) := by field_simp
    simp only [Workings.inRange_iff, List.forall_mem_cons, summed]
    refine ⟨⟨inRange_of_le zero (one.trans one_lt_maxFinite.le), List.forall_mem_nil _⟩,
      List.forall_mem_nil _, inRange_of_le (by positivity) ?_, inRange_of_le (by positivity) ?_,
      inRange_of_le (by positivity) ?_, inRange_of_le (by positivity) whole,
      List.forall_mem_nil _⟩ <;> linarith
  next outweighed =>
    have outweighed : s.medium < s.smallMax := not_le.mp outweighed
    obtain ⟨zero, one⟩ := quotient_bounds mediumNonneg outweighed.le
    have positive : 0 < s.smallMax := mediumNonneg.trans_lt outweighed
    have summed : s.smallMax * (s.medium / s.smallMax + s.smallMax * s.small) =
        s.medium + s.smallMax * (s.smallMax * s.small) := by field_simp
    simp only [Workings.inRange_iff, List.forall_mem_cons, summed]
    refine ⟨⟨inRange_of_le zero (one.trans one_lt_maxFinite.le), List.forall_mem_nil _⟩,
      List.forall_mem_nil _, inRange_of_le (by positivity) ?_, inRange_of_le (by positivity) ?_,
      inRange_of_le (by positivity) whole, List.forall_mem_nil _⟩ <;> linarith

/-- The root is taken within the range. -/
theorem rootWorkings_inRange (accounts : Accounts low high x s) (counted : Counted low high x s)
    (nonneg : 0 ≤ low) (bound : 0 ≤ high) (fits : (x.length : ℝ) ≤ maxFinite)
    (linear : x.length * high + 1 ≤ maxFinite) (room : x.length * high ^ 2 ≤ maxFinite) :
    s.rootWorkings.InRange := by
  by_cases large : (s.large != 0) = true
  · exact rootWorkings_inRange_of_large accounts counted nonneg bound (bne_iff_ne.mp large) fits
      linear
  by_cases medium : (s.medium != 0) = true
  · exact rootWorkings_inRange_of_medium accounts counted nonneg large (bne_iff_ne.mp medium)
      linear room
  have small : InRange s.small :=
    inRange_of_le accounts.small.sum_nonneg (counted.small_le_length.trans fits)
  rw [rootWorkings, if_neg large, if_neg medium, Workings.inRange_iff]
  exact ⟨List.forall_mem_nil _, List.forall_mem_nil _, List.forall_mem_singleton.mpr small.sqrt⟩

end SquareSums

/-! ### Vectors of `n` components -/

section

variable (n : Nat)

theorem partialSums_accounts (seen : List ℝ) :
    SquareSums.Accounts smallBound (largeBound / n) seen (partialSums n seen) :=
  SquareSums.accounts_foldl smallBound_pos.le SquareSums.accounts_zero seen

theorem partialSums_counted (seen : List ℝ) :
    SquareSums.Counted smallBound (largeBound / n) seen (partialSums n seen) := by
  induction seen using List.reverseRecOn with
  | nil => exact SquareSums.counted_zero smallBound_pos.le
  | append_singleton seen v ih =>
    rw [partialSums_snoc]
    exact ih.add (partialSums_accounts n seen) v

theorem largeBound_pos : 0 < (largeBound : ℝ) :=
  zero_lt_one.trans one_lt_largeBound

theorem length_mul_bound_le : (n : ℝ) * (largeBound / n) ≤ largeBound := by
  rcases Nat.eq_zero_or_pos n with rfl | some
  · simpa using largeBound_pos.le
  · exact (mul_div_cancel₀ _ (by positivity)).le

theorem length_mul_bound_sq : (n : ℝ) * (largeBound / n) ^ 2 = largeBound ^ 2 / n := by
  rcases Nat.eq_zero_or_pos n with rfl | some
  · simp
  · field_simp

theorem bound_sq_div_lt : (largeBound : ℝ) ^ 2 / n < maxFinite := by
  rcases Nat.eq_zero_or_pos n with rfl | some
  · simpa using zero_lt_one.trans one_lt_maxFinite
  · have some : (1 : ℝ) ≤ n := by exact_mod_cast some
    exact (div_le_self (sq_nonneg _) some).trans_lt largeBound_sq_lt

theorem length_mul_bound_sq_le : (n : ℝ) * (largeBound / n) ^ 2 ≤ maxFinite :=
  (length_mul_bound_sq n).trans_le (bound_sq_div_lt n).le

variable {n}

/-- All components are accounted for within the range. -/
theorem sumResults_inRange (fits : (n : ℝ) ≤ maxFinite) {seen rest : List ℝ}
    (within : seen.length + rest.length ≤ n) (finite : ∀ v ∈ rest, |v| ≤ maxFinite) :
    ∀ y ∈ sumResults (smallBound : ℝ) (largeBound / n) (partialSums n seen) rest, InRange y := by
  induction rest generalizing seen with
  | nil => exact List.forall_mem_nil _
  | cons v rest ih =>
    obtain ⟨here, later⟩ := List.forall_mem_cons.mp finite
    have counted : seen.length + 1 ≤ n := by
      simp only [List.length_cons] at within
      omega
    have counted : (seen.length : ℝ) + 1 ≤ n := by exact_mod_cast counted
    simp only [sumResults, List.cons_append, List.forall_mem_cons, List.forall_mem_append]
    refine ⟨(abs_abs v).trans_le here, ?_, ?_⟩
    · refine SquareSums.workings_inRange (partialSums_accounts n seen)
        (partialSums_counted n seen) v (counted.trans fits) ?_
      calc ((seen.length : ℝ) + 1) * (largeBound / n) ^ 2
          ≤ n * (largeBound / n) ^ 2 := by gcongr
        _ ≤ maxFinite := length_mul_bound_sq_le n
    · have next := @ih (seen ++ [v]) (by simpa [add_assoc, add_comm 1] using within) later
      rwa [partialSums_snoc] at next

end

variable {x : List ℝ}

/-- The bounds of the partial sums, however many components have been accounted for. -/
theorem partialSums_le {seen : List ℝ} (before : seen <+: x) :
    let s := partialSums x.length seen
    s.large ≤ seen.countP (fun v => Large x.length v) ∧
      s.small ≤ seen.countP (fun v => Small v) ∧
      s.medium ≤ largeBound ^ 2 / x.length := by
  have counted := partialSums_counted x.length seen
  refine ⟨counted.large, counted.small, ?_⟩
  have few : seen.countP (fun v => Medium x.length v) ≤ x.length :=
    List.countP_le_length.trans before.length_le
  calc (partialSums x.length seen).medium
      ≤ seen.countP (fun v => Medium x.length v) * (largeBound / x.length) ^ 2 :=
        (partialSums_accounts x.length seen).medium_le
    _ ≤ x.length * (largeBound / x.length) ^ 2 := by gcongr
    _ = largeBound ^ 2 / x.length := length_mul_bound_sq x.length

/-- Nothing that is computed on the way to the norm leaves the range. -/
theorem normResults_inRange (finite : ∀ v ∈ x, |v| ≤ maxFinite)
    (fits : (x.length : ℝ) ≤ maxFinite) : ∀ y ∈ normResults x, InRange y := by
  unfold normResults
  split
  · exact List.forall_mem_nil _
  next some =>
    have above := one_add_largeBound_lt
    have linear := length_mul_bound_le x.length
    have bound : (0 : ℝ) ≤ largeBound / x.length :=
      div_nonneg largeBound_pos.le (Nat.cast_nonneg _)
    have some : (1 : ℝ) ≤ x.length := by
      have : x ≠ [] := fun none => some (none ▸ rfl)
      exact_mod_cast List.length_pos_of_ne_nil this
    have quotient : largeBound / (x.length : ℝ) ≤ largeBound :=
      div_le_self largeBound_pos.le some
    simp only [List.cons_append, List.forall_mem_cons, List.forall_mem_append]
    refine ⟨inRange_of_le (Nat.cast_nonneg _) fits,
      inRange_of_le bound (quotient.trans (by linarith)), ?_, ?_⟩
    · exact @sumResults_inRange x.length fits [] x (zero_add _).le finite
    · exact SquareSums.rootWorkings_inRange (partialSums_accounts x.length x)
        (partialSums_counted x.length x) smallBound_pos.le bound fits (by linarith)
        (length_mul_bound_sq_le x.length)

/-- The norm is never more than the root of the sum of all squares. -/
theorem guardedNorm_le (x : List ℝ) : guardedNorm x ≤ √(x.map (· ^ 2)).sum :=
  Real.le_sqrt_of_sq_le (sub_nonneg.mp (dropped_bounds x).1)

/-- At every step of the norm of a vector of finite numbers the quotients are between zero and one,
the squares that are summed directly are between those of the two bounds, the relative sums are at
most the numbers of the components that they stand for, and the sum of squares is at most
`largeBound ^ 2 / n`, which is in the range of double precision. What the root is taken of is
bounded in the same way. If the number of the components is in the range as well, then so is all
that is computed on the way. Arithmetic that overflows therefore computes the same norm, unless it
is beyond the range, and then the root of the sum of all squares is so, too. -/
theorem guardedNorm_ranged (x : List ℝ) (finite : ∀ v ∈ x, |v| ≤ maxFinite) :
    let n := x.length
    let high : ℝ := largeBound / n
    let sums := squareSums x
    (∀ seen v rest, seen ++ v :: rest = x →
      let w := (partialSums n seen).workings smallBound high |v|
      (∀ r ∈ w.quotients, 0 ≤ r ∧ r ≤ 1) ∧
      ∀ q ∈ w.squares, smallBound ^ 2 ≤ q ∧ q ≤ high ^ 2) ∧
    (∀ seen, seen <+: x →
      let s := partialSums n seen
      s.large ≤ seen.countP (fun v => Large n v) ∧ s.small ≤ seen.countP (fun v => Small v) ∧
      s.medium ≤ largeBound ^ 2 / n) ∧
    (largeBound : ℝ) ^ 2 / n < maxFinite ∧
    (∀ r ∈ sums.rootWorkings.quotients, 0 ≤ r ∧ r ≤ 1) ∧
    (sums.large ≠ 0 →
      sums.medium / sums.largeMax / sums.largeMax ≤ x.countP (fun v => Medium n v) ∧
      sums.large + sums.medium / sums.largeMax / sums.largeMax ≤ n) ∧
    (sums.medium ≠ 0 →
      sums.medium + sums.smallMax * (sums.smallMax * sums.small) ≤ largeBound ^ 2 / n) ∧
    (n ≤ maxFinite → (∀ y ∈ normResults x, |y| ≤ maxFinite) ∧
      ∀ beyond, @guardedNorm ℝ (.overflowing beyond) x = settle beyond (guardedNorm x)) ∧
    (maxFinite < guardedNorm x → maxFinite < √(x.map (· ^ 2)).sum) := by
  intro n high sums
  have nonneg : (0 : ℝ) ≤ smallBound := smallBound_pos.le
  have bound : 0 ≤ high := div_nonneg largeBound_pos.le (Nat.cast_nonneg n)
  have accounts := partialSums_accounts n x
  have counted := partialSums_counted n x
  refine ⟨fun seen v rest _ => ⟨?_, ?_⟩, fun seen before => partialSums_le before,
    bound_sq_div_lt n, SquareSums.rootWorkings_quotients accounts, fun large => ⟨?_, ?_⟩,
    fun medium => ?_, fun fits => ?_, fun above => above.trans_le (guardedNorm_le x)⟩
  · exact SquareSums.workings_quotients (partialSums_accounts n seen) v
  · exact SquareSums.workings_squares nonneg (partialSums_accounts n seen) v
  · exact SquareSums.relative_le accounts counted nonneg bound large
  · exact SquareSums.total_le accounts counted nonneg bound large
  · exact (SquareSums.whole_le accounts medium).trans_eq (length_mul_bound_sq n)
  · have clear := normResults_inRange finite fits
    exact ⟨clear, fun beyond => guardedNorm_overflowing clear⟩

/-- Finite components of all classes, the norm of which is not. -/
theorem guardedNorm_ranged_beyond :
    (∀ v ∈ [(1.5e308 : ℝ), 1, -1.5e308, 1e-200], |v| ≤ maxFinite) ∧
      (∀ y ∈ normResults [(1.5e308 : ℝ), 1, -1.5e308, 1e-200], |y| ≤ maxFinite) ∧
      maxFinite < √(([(1.5e308 : ℝ), 1, -1.5e308, 1e-200].map (· ^ 2)).sum) := by
  have finite : ∀ v ∈ [(1.5e308 : ℝ), 1, -1.5e308, 1e-200], |v| ≤ maxFinite := by
    simp only [List.forall_mem_cons, List.not_mem_nil, false_imp_iff, implies_true, and_true,
      maxFinite_eq, abs_le]
    norm_num
  obtain ⟨-, -, -, -, -, -, clear, beyond⟩ := guardedNorm_ranged _ finite
  refine ⟨finite, (clear ?_).1, beyond ?_⟩
  · rw [maxFinite_eq]
    norm_num
  · have above : (smallBound : ℝ) < |1.5e308| ∧ (smallBound : ℝ) < |-1.5e308| := by
      rw [smallBound_real]
      constructor <;> norm_num
    have large : ∃ v ∈ [(1.5e308 : ℝ), 1, -1.5e308, 1e-200], Large 4 v :=
      ⟨1.5e308, List.mem_cons_self, large_iff.mpr ⟨above.1, by
        rw [largeBound_real]
        norm_num⟩⟩
    refine lt_of_pow_lt_pow_left₀ 2 (guardedNorm_nonneg _) ?_
    calc maxFinite ^ 2
        < 1.5e308 ^ 2 + (-1.5e308) ^ 2 := by
          rw [maxFinite_eq]
          norm_num
      _ ≤ squaresWhere (fun v => smallBound < |v|) [(1.5e308 : ℝ), 1, -1.5e308, 1e-200] := by
          rw [squaresWhere_cons, squaresWhere_cons, squaresWhere_cons, if_pos above.1,
            if_pos above.2]
          exact add_le_add le_rfl (le_add_of_nonneg_of_le (by positivity)
            (le_add_of_nonneg_right (squaresWhere_nonneg _)))
      _ = guardedNorm [(1.5e308 : ℝ), 1, -1.5e308, 1e-200] ^ 2 :=
          (sq_guardedNorm_of_large large).symm

end LeastSquares
