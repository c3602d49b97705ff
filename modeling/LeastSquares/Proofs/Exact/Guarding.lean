import LeastSquares.Proofs.Exact.Scalar
import LeastSquares.Proofs.Magnitudes

/-!
# The guarded norm

Without errors of rounding the guarded norm is the Euclidean norm of the components it does not
drop: all of them if none is large, and otherwise those that are not small. Each of the two sums
that are relative to a running maximum stands, times the square of that maximum, for the squares of
its class, whichever maxima came before. The order of the components therefore does not matter.
-/
namespace LeastSquares

/-- The sum of the squares of the components in a class. -/
noncomputable def squaresWhere (p : ℝ → Prop) [DecidablePred p] (x : List ℝ) : ℝ :=
  ((x.filter fun v => p v).map (· ^ 2)).sum

theorem smallBound_real : (smallBound : ℝ) = 1.4916681462400413e-154 := rfl

theorem largeBound_real : (largeBound : ℝ) = 1.3407807929942596e154 := rfl

theorem large_iff {n : Nat} {v : ℝ} :
    Large n v ↔ smallBound < |v| ∧ largeBound / n ≤ |v| :=
  and_congr_right fun _ => not_lt

theorem smallBound_pos : 0 < (smallBound : ℝ) := by
  rw [smallBound_real]
  norm_num

/-! ### Sums over classes -/

section

variable {p q : ℝ → Prop} [DecidablePred p] [DecidablePred q]

theorem squaresWhere_append (x y : List ℝ) :
    squaresWhere p (x ++ y) = squaresWhere p x + squaresWhere p y := by
  rw [squaresWhere, List.filter_append, List.map_append, List.sum_append]
  rfl

theorem squaresWhere_singleton (v : ℝ) : squaresWhere p [v] = if p v then v ^ 2 else 0 := by
  by_cases inside : p v <;> simp [squaresWhere, inside]

theorem squaresWhere_nonneg (x : List ℝ) : 0 ≤ squaresWhere p x := by
  refine List.sum_nonneg fun s member => ?_
  obtain ⟨v, -, rfl⟩ := List.mem_map.mp member
  exact sq_nonneg v

theorem squaresWhere_cons (v : ℝ) (x : List ℝ) :
    squaresWhere p (v :: x) = (if p v then v ^ 2 else 0) + squaresWhere p x := by
  rw [← squaresWhere_singleton]
  exact squaresWhere_append [v] x

/-- A class divided in two. -/
theorem squaresWhere_split (x : List ℝ) : squaresWhere p x =
    squaresWhere (fun v => p v ∧ q v) x + squaresWhere (fun v => p v ∧ ¬ q v) x := by
  induction x with
  | nil => simp [squaresWhere]
  | cons v x ih =>
    simp only [squaresWhere_cons]
    by_cases inside : p v <;> by_cases also : q v <;> simp [inside, also] <;> linarith

theorem squaresWhere_eq_zero_iff (x : List ℝ) :
    squaresWhere p x = 0 ↔ ∀ v ∈ x, p v → v = 0 := by
  induction x with
  | nil => simp [squaresWhere]
  | cons v x ih =>
    rw [squaresWhere_cons, List.forall_mem_cons, ← ih]
    by_cases inside : p v
    · rw [if_pos inside, add_eq_zero_iff_of_nonneg (sq_nonneg v) (squaresWhere_nonneg x),
        sq_eq_zero_iff]
      simp [inside]
    · simp [inside]

/-- Each component of a class adds at most the square of the bound of its class. -/
theorem squaresWhere_le_count {bound : ℝ} (small : ∀ v, p v → |v| ≤ bound) (x : List ℝ) :
    squaresWhere p x ≤ x.countP (fun v => p v) * bound ^ 2 := by
  induction x with
  | nil => simp [squaresWhere]
  | cons v x ih =>
    rw [squaresWhere_cons, List.countP_cons]
    by_cases inside : p v
    · have here : v ^ 2 ≤ bound ^ 2 := by
        rw [← sq_abs v]
        exact pow_le_pow_left₀ (abs_nonneg v) (small v inside) 2
      simp only [inside, if_true, decide_true]
      push_cast
      linarith
    · simpa [inside] using ih

/-- Components of bounded magnitude add up to the square of the bound for each, at most. -/
theorem squaresWhere_le {bound : ℝ} (small : ∀ v, p v → |v| ≤ bound) (x : List ℝ) :
    squaresWhere p x ≤ x.length * bound ^ 2 := by
  refine (squaresWhere_le_count small x).trans ?_
  gcongr
  exact List.countP_le_length

end

namespace SquareSums

/-! ### Relative sums -/

/-- The sum `total` of squares is `sum` times the square of the largest of them, `max`. -/
structure Relative (sum max total : ℝ) : Prop where
  total_eq : sum * max ^ 2 = total
  empty_or : (sum = 0 ∧ max = 0) ∨ (1 ≤ sum ∧ 0 < max)

namespace Relative

variable {sum max total size : ℝ}

theorem max_nonneg (h : Relative sum max total) : 0 ≤ max := by
  rcases h.empty_or with ⟨-, empty⟩ | ⟨-, positive⟩
  · exact empty.ge
  · exact positive.le

theorem sum_nonneg (h : Relative sum max total) : 0 ≤ sum := by
  rcases h.empty_or with ⟨empty, -⟩ | ⟨least, -⟩
  · exact empty.ge
  · linarith

theorem sum_eq_zero_iff (h : Relative sum max total) : sum = 0 ↔ total = 0 := by
  rcases h.empty_or with ⟨empty, -⟩ | ⟨least, positive⟩
  · simp [← h.total_eq, empty]
  · rw [← h.total_eq]
    exact iff_of_false (by linarith) (by positivity)

/-- A new maximum rescales the sum. -/
theorem rescaled (h : Relative sum max total) (larger : max < size) :
    Relative (1 + sum * (max / size) * (max / size)) size (total + size ^ 2) := by
  have positive : 0 < size := h.max_nonneg.trans_lt larger
  have sumNonneg := h.sum_nonneg
  refine ⟨?_, .inr ⟨?_, positive⟩⟩
  · rw [← h.total_eq]
    field_simp
    ring
  · rw [mul_assoc]
    linarith [mul_nonneg sumNonneg (mul_self_nonneg (max / size))]

theorem extended (h : Relative sum max total) (positive : 0 < size) (le : size ≤ max) :
    Relative (sum + size / max * (size / max)) max (total + size ^ 2) := by
  have maxPositive : 0 < max := positive.trans_le le
  rcases h.empty_or with ⟨-, empty⟩ | ⟨least, -⟩
  · exact absurd empty maxPositive.ne'
  · refine ⟨?_, .inr ⟨?_, maxPositive⟩⟩
    · rw [← h.total_eq]
      field_simp
    · linarith [mul_self_nonneg (size / max)]

end Relative

/-! ### What the sums stand for -/

/-- The partial sums are those of the three classes of `x`. -/
structure Accounts (low high : ℝ) (x : List ℝ) (s : SquareSums ℝ) : Prop where
  large : Relative s.large s.largeMax (squaresWhere (fun v => low < |v| ∧ ¬ |v| < high) x)
  medium : s.medium = squaresWhere (fun v => low < |v| ∧ |v| < high) x
  small : Relative s.small s.smallMax (squaresWhere (fun v => ¬ low < |v|) x)

variable {low high : ℝ} {x : List ℝ} {s : SquareSums ℝ}

theorem accounts_zero : Accounts low high [] zero where
  large := ⟨zero_mul _, .inl ⟨rfl, rfl⟩⟩
  medium := rfl
  small := ⟨zero_mul _, .inl ⟨rfl, rfl⟩⟩

theorem squaresWhere_snoc {p : ℝ → Prop} [DecidablePred p] (x : List ℝ) (v : ℝ) :
    squaresWhere p (x ++ [v]) = squaresWhere p x + if p v then |v| ^ 2 else 0 := by
  rw [squaresWhere_append, squaresWhere_singleton, sq_abs]

namespace Accounts

variable {v : ℝ}

theorem add_medium (h : Accounts low high x s) (inside : low < |v| ∧ |v| < high) :
    Accounts low high (x ++ [v]) { s with medium := s.medium + |v| * |v| } where
  large := by
    rw [squaresWhere_snoc, if_neg fun large => large.2 inside.2, add_zero]
    exact h.large
  medium := by rw [squaresWhere_snoc, if_pos inside, ← h.medium, sq]
  small := by
    rw [squaresWhere_snoc, if_neg (not_not_intro inside.1), add_zero]
    exact h.small

theorem add_large {sum max : ℝ} (h : Accounts low high x s) (beyond : low < |v| ∧ ¬ |v| < high)
    (grown : Relative sum max
      (squaresWhere (fun v => low < |v| ∧ ¬ |v| < high) x + |v| ^ 2)) :
    Accounts low high (x ++ [v]) { s with large := sum, largeMax := max } where
  large := by
    rw [squaresWhere_snoc, if_pos beyond]
    exact grown
  medium := by rw [squaresWhere_snoc, if_neg fun medium => beyond.2 medium.2, add_zero, h.medium]
  small := by
    rw [squaresWhere_snoc, if_neg (not_not_intro beyond.1), add_zero]
    exact h.small

theorem add_small {sum max : ℝ} (h : Accounts low high x s) (below : ¬ low < |v|)
    (grown : Relative sum max (squaresWhere (fun v => ¬ low < |v|) x + |v| ^ 2)) :
    Accounts low high (x ++ [v]) { s with small := sum, smallMax := max } where
  large := by
    rw [squaresWhere_snoc, if_neg fun large => below large.1, add_zero]
    exact h.large
  medium := by rw [squaresWhere_snoc, if_neg fun medium => below medium.1, add_zero, h.medium]
  small := by
    rw [squaresWhere_snoc, if_pos below]
    exact grown

/-- One more component. -/
theorem add (nonneg : 0 ≤ low) (h : Accounts low high x s) (v : ℝ) :
    Accounts low high (x ++ [v]) (s.add low high |v|) := by
  have added := s.added low high |v|
  generalize s.add low high |v| = t at added ⊢
  cases added with
  | medium above below => exact h.add_medium ⟨above, below⟩
  | largest above beyond new => exact h.add_large ⟨above, beyond⟩ (h.large.rescaled new)
  | large above beyond old =>
    exact h.add_large ⟨above, beyond⟩ (h.large.extended (nonneg.trans_lt above) (not_lt.mp old))
  | smallest below new => exact h.add_small below (h.small.rescaled new)
  | small below old nonzero =>
    exact h.add_small below (h.small.extended
      ((abs_nonneg v).lt_of_ne' (bne_iff_ne.mp nonzero)) (not_lt.mp old))
  | nothing below old zero =>
    have zero : |v| = 0 := by simpa using zero
    refine h.add_small (s := s) below ?_
    rw [zero, zero_pow two_ne_zero, add_zero]
    exact h.small

end Accounts

theorem accounts_foldl (nonneg : 0 ≤ low) (h : Accounts low high x s) (y : List ℝ) :
    Accounts low high (x ++ y) (y.foldl (fun s v => s.add low high (abs v)) s) := by
  induction y generalizing x s with
  | nil => rwa [List.append_nil]
  | cons v y ih =>
    rw [List.foldl_cons, List.append_cons]
    exact ih (h.add nonneg v)

/-- With a large class, the small one is dropped. -/
theorem Accounts.sq_root_of_large (h : Accounts low high x s) (present : s.large ≠ 0) :
    s.root ^ 2 = squaresWhere (fun v => low < |v|) x := by
  have mediumNonneg : 0 ≤ s.medium := h.medium ▸ squaresWhere_nonneg x
  obtain ⟨empty, -⟩ | ⟨least, positive⟩ := h.large.empty_or
  · exact absurd empty present
  · have root : s.root = s.largeMax * √(s.large + s.medium / s.largeMax / s.largeMax) :=
      if_pos (bne_iff_ne.mpr present)
    rw [root, mul_pow, Real.sq_sqrt (by positivity),
      squaresWhere_split (q := fun v => |v| < high), ← h.medium, ← h.large.total_eq]
    field_simp
    ring

theorem Accounts.sq_root_of_no_large (h : Accounts low high x s) (absent : s.large = 0) :
    s.root ^ 2 = squaresWhere (fun v => low < |v|) x + squaresWhere (fun v => ¬ low < |v|) x := by
  have mediumNonneg : 0 ≤ s.medium := h.medium ▸ squaresWhere_nonneg x
  have maxNonneg := h.small.max_nonneg
  have smallNonneg := h.small.sum_nonneg
  rw [squaresWhere_split (q := fun v => |v| < high), ← h.medium,
    h.large.sum_eq_zero_iff.mp absent, ← h.small.total_eq, add_zero]
  unfold root
  rw [if_neg (by simp [absent])]
  split
  next present =>
    have positive : 0 < s.medium := mediumNonneg.lt_of_ne' (bne_iff_ne.mp present)
    -- Both ways to take a factor out of the root leave the same sum.
    split
    next =>
      rw [sqrt_real, Real.sq_sqrt (by positivity)]
      field_simp
    next outweighed =>
      have maxPositive : 0 < s.smallMax := positive.trans (not_le.mp outweighed)
      rw [sqrt_real, Real.sq_sqrt (by positivity)]
      field_simp
  next absent =>
    have absent : s.medium = 0 := by simpa using absent
    rw [sqrt_real, mul_pow, Real.sq_sqrt smallNonneg, absent]
    ring

theorem Accounts.root_nonneg (h : Accounts low high x s) : 0 ≤ s.root := by
  unfold root
  split
  · exact mul_nonneg h.large.max_nonneg (Real.sqrt_nonneg _)
  · split
    · split <;> exact Real.sqrt_nonneg _
    · exact mul_nonneg h.small.max_nonneg (Real.sqrt_nonneg _)

end SquareSums

/-! ### The norm -/

theorem squareSums_accounts (x : List ℝ) :
    SquareSums.Accounts smallBound (largeBound / x.length) x (squareSums x) :=
  SquareSums.accounts_foldl smallBound_pos.le SquareSums.accounts_zero x

theorem guardedNorm_eq_root (x : List ℝ) : guardedNorm x = (squareSums x).root := by
  cases x with
  | nil => simp [guardedNorm, squareSums, SquareSums.root, SquareSums.zero]
  | cons v x => rfl

theorem guardedNorm_nonneg (x : List ℝ) : 0 ≤ guardedNorm x := by
  rw [guardedNorm_eq_root]
  exact (squareSums_accounts x).root_nonneg

/-- There is a large component just if the large class has something to add up. -/
theorem large_eq_zero_iff (x : List ℝ) :
    (squareSums x).large = 0 ↔ ∀ v ∈ x, ¬ Large x.length v := by
  rw [(squareSums_accounts x).large.sum_eq_zero_iff, squaresWhere_eq_zero_iff]
  refine forall₂_congr fun v _ => ⟨fun zero large => ?_, fun none large => absurd large none⟩
  have positive := smallBound_pos.trans (large_iff.mp large).1
  rw [zero large, abs_zero] at positive
  exact positive.false

/-- The squares of all components, as those above the bound of the small class and those not. -/
theorem sum_squares_eq (x : List ℝ) : (x.map (· ^ 2)).sum =
    squaresWhere (fun v => smallBound < |v|) x + squaresWhere (fun v => ¬ smallBound < |v|) x := by
  have whole := squaresWhere_split (p := fun _ => True) (q := fun v => (smallBound : ℝ) < |v|) x
  simpa [squaresWhere] using whole

theorem sq_guardedNorm_of_large {x : List ℝ} (large : ∃ v ∈ x, Large x.length v) :
    guardedNorm x ^ 2 = squaresWhere (fun v => smallBound < |v|) x := by
  rw [guardedNorm_eq_root]
  refine (squareSums_accounts x).sq_root_of_large fun zero => ?_
  obtain ⟨v, member, large⟩ := large
  exact (large_eq_zero_iff x).mp zero v member large

theorem sq_guardedNorm_of_no_large {x : List ℝ} (none : ∀ v ∈ x, ¬ Large x.length v) :
    guardedNorm x ^ 2 = (x.map (· ^ 2)).sum := by
  rw [guardedNorm_eq_root, sum_squares_eq]
  exact (squareSums_accounts x).sq_root_of_no_large ((large_eq_zero_iff x).mpr none)

/-- What the guarded norm drops are small components, if any. -/
theorem dropped_bounds (x : List ℝ) : 0 ≤ (x.map (· ^ 2)).sum - guardedNorm x ^ 2 ∧
    (x.map (· ^ 2)).sum - guardedNorm x ^ 2 ≤ x.length * smallBound ^ 2 := by
  by_cases large : ∃ v ∈ x, Large x.length v
  · rw [sq_guardedNorm_of_large large, sum_squares_eq, add_sub_cancel_left]
    exact ⟨squaresWhere_nonneg x, squaresWhere_le (fun _ small => not_lt.mp small) x⟩
  · rw [sq_guardedNorm_of_no_large (by simpa using large), sub_self]
    exact ⟨le_rfl, by positivity⟩

theorem guardedNorm_eq_zero_iff (x : List ℝ) : guardedNorm x = 0 ↔ ∀ v ∈ x, v = 0 := by
  rw [← sq_eq_zero_iff]
  by_cases large : ∃ v ∈ x, Large x.length v
  · -- A large component is not zero, and it is not dropped.
    obtain ⟨v, member, isLarge⟩ := large
    rw [sq_guardedNorm_of_large ⟨v, member, isLarge⟩, squaresWhere_eq_zero_iff]
    have nonzero : v ≠ 0 := abs_pos.mp (smallBound_pos.trans isLarge.1)
    exact iff_of_false (fun none => nonzero (none v member isLarge.1))
      (fun none => nonzero (none v member))
  · have all := squaresWhere_eq_zero_iff (p := fun _ => True) x
    rw [sq_guardedNorm_of_no_large (by simpa using large)]
    simpa [squaresWhere] using all

/-- The order of the components does not matter. -/
theorem guardedNorm_perm {x y : List ℝ} (perm : x.Perm y) : guardedNorm x = guardedNorm y := by
  have same : (∃ v ∈ x, Large x.length v) ↔ ∃ v ∈ y, Large y.length v := by
    rw [perm.length_eq]
    exact exists_congr fun v => and_congr_left fun _ => perm.mem_iff
  refine (sq_eq_sq₀ (guardedNorm_nonneg x) (guardedNorm_nonneg y)).mp ?_
  by_cases large : ∃ v ∈ x, Large x.length v
  · rw [sq_guardedNorm_of_large large, sq_guardedNorm_of_large (same.mp large)]
    exact ((perm.filter _).map _).sum_eq
  · rw [sq_guardedNorm_of_no_large (by simpa using large),
      sq_guardedNorm_of_no_large (by simpa using same.not.mp large)]
    exact (perm.map _).sum_eq

/-- Without errors of rounding the square of the guarded norm is the sum of all squares if no
component is large, and otherwise the sum of the squares of those that are not small. What is
dropped is never more than the number of components times the square of the bound of the small
class, and only the zero vector has the norm zero. -/
theorem guardedNorm_exact (x : List ℝ) :
    ((∀ v ∈ x, ¬ Large x.length v) → guardedNorm x ^ 2 = (x.map (· ^ 2)).sum) ∧
    ((∃ v ∈ x, Large x.length v) →
      guardedNorm x ^ 2 = ((x.filter fun v => smallBound < |v|).map (· ^ 2)).sum) ∧
    0 ≤ (x.map (· ^ 2)).sum - guardedNorm x ^ 2 ∧
    (x.map (· ^ 2)).sum - guardedNorm x ^ 2 ≤ x.length * smallBound ^ 2 ∧
    (guardedNorm x = 0 ↔ ∀ v ∈ x, v = 0) :=
  ⟨sq_guardedNorm_of_no_large, sq_guardedNorm_of_large, (dropped_bounds x).1, (dropped_bounds x).2,
    guardedNorm_eq_zero_iff x⟩

/-- A small component counts unless there is a large one, which outweighs it. -/
theorem guardedNorm_exact_mixed :
    guardedNorm [(1e200 : ℝ), 1, 1e-200] ^ 2 = 1e200 ^ 2 + 1 ^ 2 ∧
      guardedNorm [(1 : ℝ), 1e-200] ^ 2 = 1 ^ 2 + 1e-200 ^ 2 := by
  have dropped : ¬ (smallBound : ℝ) < |1e-200| := by
    rw [smallBound_real, abs_of_pos] <;> norm_num
  have kept : (smallBound : ℝ) < |1| ∧ (smallBound : ℝ) < |1e200| := by
    rw [smallBound_real]
    constructor <;> norm_num
  constructor
  · rw [(guardedNorm_exact _).2.1 ⟨1e200, List.mem_cons_self, large_iff.mpr ⟨kept.2, by
      rw [largeBound_real]
      norm_num⟩⟩]
    simp only [List.filter_cons, decide_eq_true kept.1, decide_eq_true kept.2,
      decide_eq_false dropped]
    simp
  · rw [(guardedNorm_exact _).1 fun v member large => ?_]
    · simp
    · simp only [List.mem_cons, List.not_mem_nil, or_false] at member
      rw [large_iff, largeBound_real] at large
      rcases member with rfl | rfl
      · norm_num at large
      · exact dropped large.1

end LeastSquares
