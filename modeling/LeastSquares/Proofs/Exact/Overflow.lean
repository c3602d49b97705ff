import LeastSquares.Proofs.Exact.Guarding
import LeastSquares.Proofs.Workings

/-!
# The guarded norm in arithmetic that overflows

Double precision loses what is beyond its largest number. Here that is all it loses: arithmetic is
exact within the range, and anything may come out beyond it. As long as nothing that the guarded
norm computes on its way leaves the range, the result is that of exact arithmetic.
-/
namespace LeastSquares

/-- The largest finite number in double precision. -/
noncomputable def maxFinite : ℝ := ((2 ^ 53 - 1) * 2 ^ 971 : Nat)

theorem maxFinite_eq : maxFinite = (2 ^ 53 - 1) * ((2 ^ 200) ^ 4 * 2 ^ 171) := by
  have exponents : (2 ^ 200) ^ 4 * 2 ^ 171 = 2 ^ 971 := by rw [← pow_mul, ← pow_add]
  rw [maxFinite, ← exponents]
  push_cast
  norm_num

theorem largeBound_sq_lt : (largeBound : ℝ) ^ 2 < maxFinite := by
  rw [largeBound_real, maxFinite_eq]
  norm_num

theorem one_add_largeBound_lt : 1 + (largeBound : ℝ) < maxFinite := by
  rw [largeBound_real, maxFinite_eq]
  norm_num

theorem one_lt_largeBound : 1 < (largeBound : ℝ) := by
  rw [largeBound_real]
  norm_num

theorem one_lt_maxFinite : 1 < maxFinite := by
  linarith [one_lt_largeBound, one_add_largeBound_lt]

/-! ### Arithmetic that overflows -/

/-- A result, unless it is beyond the largest finite number. -/
noncomputable def settle (beyond : ℝ → ℝ) (x : ℝ) : ℝ :=
  if |x| ≤ maxFinite then x else beyond x

/-- Arithmetic without errors of rounding in which what is `beyond` the largest finite number is
lost. -/
noncomputable abbrev Numeric.overflowing (beyond : ℝ → ℝ) : Numeric ℝ :=
  { (inferInstance : Numeric ℝ) with
    add := fun x y => settle beyond (x + y)
    sub := fun x y => settle beyond (x - y)
    mul := fun x y => settle beyond (x * y)
    div := fun x y => settle beyond (x / y)
    ofNat := fun n => settle beyond n
    sqrt := fun x => settle beyond √x
    exp := fun x => settle beyond (Real.exp x) }

/-- Within the range of finite numbers. -/
def InRange (x : ℝ) : Prop := |x| ≤ maxFinite

theorem InRange.settle_eq {x : ℝ} (h : InRange x) (beyond : ℝ → ℝ) : settle beyond x = x :=
  if_pos h

theorem inRange_of_le {x : ℝ} (nonneg : 0 ≤ x) (le : x ≤ maxFinite) : InRange x :=
  (abs_of_nonneg nonneg).trans_le le

theorem InRange.sqrt {x : ℝ} (h : InRange x) : InRange √x := by
  have larger := one_lt_maxFinite
  refine inRange_of_le (Real.sqrt_nonneg x) (Real.sqrt_le_iff.mpr ⟨by linarith, ?_⟩)
  exact (le_abs_self x).trans (h.trans (by nlinarith))

/-- All that is computed is within the range. -/
def Workings.InRange (w : Workings ℝ) : Prop := ∀ x ∈ w.all, LeastSquares.InRange x

theorem Workings.inRange_iff {w : Workings ℝ} : w.InRange ↔
    (∀ x ∈ w.quotients, LeastSquares.InRange x) ∧ (∀ x ∈ w.squares, LeastSquares.InRange x) ∧
      ∀ x ∈ w.others, LeastSquares.InRange x := by
  rw [InRange, all, List.forall_mem_append, List.forall_mem_append, and_assoc]

namespace SquareSums

variable {beyond : ℝ → ℝ} {low high size : ℝ} {s : SquareSums ℝ}

theorem rescaling_inRange_iff {sum ratio : ℝ} : (rescaling sum ratio).InRange ↔
    InRange ratio ∧ InRange (sum * ratio) ∧ InRange (sum * ratio * ratio) ∧
      InRange (1 + sum * ratio * ratio) := by
  simp [rescaling, Workings.inRange_iff]

theorem extending_inRange_iff {sum ratio : ℝ} : (extending sum ratio).InRange ↔
    InRange ratio ∧ InRange (ratio * ratio) ∧ InRange (sum + ratio * ratio) := by
  simp [extending, Workings.inRange_iff]

theorem settle_rescaling {sum ratio : ℝ} (clear : (rescaling sum ratio).InRange) :
    settle beyond (1 + settle beyond (settle beyond (sum * settle beyond ratio) *
      settle beyond ratio)) = 1 + sum * ratio * ratio := by
  obtain ⟨quotient, once, twice, sum⟩ := rescaling_inRange_iff.mp clear
  rw [quotient.settle_eq, once.settle_eq, twice.settle_eq, sum.settle_eq]

theorem settle_extending {sum ratio : ℝ} (clear : (extending sum ratio).InRange) :
    settle beyond (sum + settle beyond (settle beyond ratio * settle beyond ratio)) =
      sum + ratio * ratio := by
  obtain ⟨quotient, square, sum⟩ := extending_inRange_iff.mp clear
  rw [quotient.settle_eq, square.settle_eq, sum.settle_eq]

/-- A component is accounted for without an overflow if everything that is computed is in range. -/
theorem add_overflowing (clear : (s.workings low high size).InRange) :
    @add ℝ (.overflowing beyond) low high s size = s.add low high size := by
  refine ite_congr rfl (fun medium => ?_) fun notMedium =>
    ite_congr rfl (fun large => ite_congr rfl (fun new => ?_) fun old => ?_) fun notLarge =>
      ite_congr rfl (fun new => ?_) fun old => ite_congr rfl (fun nonzero => ?_) fun _ => rfl
  · rw [workings, if_pos medium] at clear
    simp only [Workings.inRange_iff, List.forall_mem_cons] at clear
    obtain ⟨-, ⟨square, -⟩, sum, -⟩ := clear
    refine congrArg (fun medium => ({ s with medium } : SquareSums ℝ)) ?_
    exact (congrArg (fun x => settle beyond (s.medium + x)) (square.settle_eq beyond)).trans
      (sum.settle_eq beyond)
  · rw [workings, if_neg notMedium, if_pos large, if_pos new] at clear
    exact congrArg (fun large => ({ s with large, largeMax := size } : SquareSums ℝ))
      (settle_rescaling clear)
  · rw [workings, if_neg notMedium, if_pos large, if_neg old] at clear
    exact congrArg (fun large => ({ s with large } : SquareSums ℝ)) (settle_extending clear)
  · rw [workings, if_neg notMedium, if_neg notLarge, if_pos new] at clear
    exact congrArg (fun small => ({ s with small, smallMax := size } : SquareSums ℝ))
      (settle_rescaling clear)
  · rw [workings, if_neg notMedium, if_neg notLarge, if_neg old, if_pos nonzero] at clear
    exact congrArg (fun small => ({ s with small } : SquareSums ℝ)) (settle_extending clear)

/-- So is the root taken, except for the norm itself. -/
theorem root_overflowing (clear : s.rootWorkings.InRange) :
    @root ℝ (.overflowing beyond) s = settle beyond s.root := by
  refine (ite_congr rfl (fun large => ?_) fun noLarge => (ite_congr rfl (fun medium =>
    (ite_congr rfl (fun outweighs => ?_) fun outweighed => ?_).trans (apply_ite ..).symm)
      fun noMedium => ?_).trans (apply_ite ..).symm).trans (apply_ite (settle beyond) ..).symm
  · rw [rootWorkings, if_pos large] at clear
    simp only [Workings.inRange_iff, List.forall_mem_cons] at clear
    obtain ⟨-, -, scaled, relative, sum, root, -⟩ := clear
    change settle beyond (s.largeMax * settle beyond √(settle beyond (s.large +
      settle beyond (settle beyond (s.medium / s.largeMax) / s.largeMax)))) = _
    rw [scaled.settle_eq, relative.settle_eq, sum.settle_eq]
    exact congrArg (fun x => settle beyond (s.largeMax * x)) (root.settle_eq beyond)
  · rw [rootWorkings, if_neg noLarge, if_pos medium, if_pos outweighs] at clear
    simp only [Workings.inRange_iff, List.forall_mem_cons] at clear
    obtain ⟨⟨ratio, -⟩, -, tail, product, sum, whole, -⟩ := clear
    change settle beyond √(settle beyond (s.medium * settle beyond (1 + settle beyond
      (settle beyond (s.smallMax / s.medium) * settle beyond (s.smallMax * s.small))))) = _
    rw [ratio.settle_eq, tail.settle_eq, product.settle_eq, sum.settle_eq, whole.settle_eq]
    rfl
  · rw [rootWorkings, if_neg noLarge, if_pos medium, if_neg outweighed] at clear
    simp only [Workings.inRange_iff, List.forall_mem_cons] at clear
    obtain ⟨⟨ratio, -⟩, -, tail, sum, whole, -⟩ := clear
    change settle beyond √(settle beyond (s.smallMax * settle beyond (settle beyond
      (s.medium / s.smallMax) + settle beyond (s.smallMax * s.small)))) = _
    rw [ratio.settle_eq, tail.settle_eq, sum.settle_eq, whole.settle_eq]
    rfl
  · rw [rootWorkings, if_neg noLarge, if_neg noMedium] at clear
    simp only [Workings.inRange_iff, List.forall_mem_cons] at clear
    obtain ⟨-, -, root, -⟩ := clear
    exact congrArg (fun x => settle beyond (s.smallMax * x)) (root.settle_eq beyond)

theorem foldl_overflowing {x : List ℝ} (clear : ∀ y ∈ sumResults low high s x, InRange y) :
    x.foldl (fun s v => @add ℝ (.overflowing beyond) low high s |v|) s =
      x.foldl (fun s v => s.add low high |v|) s := by
  induction x generalizing s with
  | nil => rfl
  | cons v x ih =>
    simp only [sumResults, List.cons_append, List.forall_mem_cons, List.forall_mem_append] at clear
    obtain ⟨-, here, later⟩ := clear
    have step : @add ℝ (.overflowing beyond) low high s |v| = s.add low high |v| :=
      add_overflowing here
    rw [List.foldl_cons, List.foldl_cons, step]
    exact ih later

end SquareSums

/-- A norm on the way to which nothing leaves the range is what arithmetic that overflows computes,
unless it is beyond the range itself. -/
theorem guardedNorm_overflowing {beyond : ℝ → ℝ} {x : List ℝ}
    (clear : ∀ y ∈ normResults x, InRange y) :
    @guardedNorm ℝ (.overflowing beyond) x = settle beyond (guardedNorm x) := by
  cases x with
  | nil =>
    have zero : InRange 0 := inRange_of_le le_rfl (zero_le_one.trans one_lt_maxFinite.le)
    exact (zero.settle_eq beyond).symm
  | cons v x =>
    set y := v :: x with y_eq
    have some : y.isEmpty = false := rfl
    simp only [normResults, some, Bool.false_eq_true, if_false, List.cons_append,
      List.forall_mem_cons, List.forall_mem_append] at clear
    obtain ⟨length, bound, sums, root⟩ := clear
    have high : settle beyond (largeBound / settle beyond (y.length : ℝ)) =
        largeBound / Numeric.ofNat y.length := by
      have whole : settle beyond (y.length : ℝ) = Numeric.ofNat y.length := length.settle_eq beyond
      rw [whole]
      exact bound.settle_eq beyond
    have sums : @squareSums ℝ (.overflowing beyond) y = squareSums y := by
      change y.foldl (fun s v => @SquareSums.add ℝ (.overflowing beyond) smallBound
        (settle beyond (largeBound / settle beyond (y.length : ℝ))) s |v|) .zero = _
      rw [high]
      exact SquareSums.foldl_overflowing sums
    change @SquareSums.root ℝ (.overflowing beyond) (@squareSums ℝ (.overflowing beyond) y) =
      settle beyond (squareSums y).root
    rw [sums, SquareSums.root_overflowing root]

end LeastSquares
