import Mathlib
import LeastSquares.Damping.Solve
import LeastSquares.Proofs.Exact.Rotation

/-!
# Damped solves are exact

Absorbing the damping leaves the triangle `S` with `Sᵀ S = Rᵀ R + Pᵀ D² P`, and right-hand sides `w`
with `Sᵀ w = Rᵀ b`. Up to the first zero on the diagonal of `S` the solution satisfies `S z = w`,
and from there on it is zero. A damping without zeros leaves no zero on the diagonal of `S`, and the
solution can only be zero if `Rᵀ b` is.
-/
namespace LeastSquares

variable {m n : Nat}

/-- The position of the first zero on the diagonal of `S`, or `n`. -/
noncomputable def DampedSolution.rank (d : DampedSolution ℝ m n) : Nat :=
  firstIndex fun j => d.sdiag.get j == 0

namespace Triangular

variable {tall : n ≤ m}

/-- Entry `i` of `Rᵀ b`. -/
noncomputable def gradient (tall : n ≤ m) (s : Triangular ℝ m n) (i : Fin n) : ℝ :=
  ∑ l with l ≤ i, s.r.lead tall l i * s.qtb.get l

/-- The triangle and the right-hand sides that are left when the damping has been absorbed. -/
noncomputable def absorbed (tall : n ≤ m) (s : Triangular ℝ m n) (diag rhs : Vector ℝ n) :
    Columns ℝ m n × Vector ℝ n :=
  Fin.foldl n (fun state j => s.absorbDamping tall diag j state) (withLowerCopy tall s.r, rhs)

/-! ### The copy -/

theorem lead_withLowerCopy (r : Columns ℝ m n) {i l : Fin n} (lower : l ≤ i) :
    (withLowerCopy tall r).lead tall i l = r.lead tall l i := by
  simp [withLowerCopy, Columns.lead, Columns.entry, lower]

theorem coefficient_withLowerCopy (r : Columns ℝ m n) (rhs : Vector ℝ n) (i l : Fin n) :
    coefficient tall (withLowerCopy tall r) rhs (some i) l =
      if l ≤ i then r.lead tall l i else 0 := by
  simp only [coefficient]
  split
  next lower => exact lead_withLowerCopy r lower
  next => rfl

/-! ### Absorbing one row -/

/-- The row that carries entry `j` of the damping. -/
noncomputable def dampingRow (s : Triangular ℝ m n) (diag : Vector ℝ n) (j : Fin n)
    (state : Columns ℝ m n × Vector ℝ n) : Absorption ℝ m n :=
  { triangle := state.1
    rhs := state.2
    row := Vector.ofFn fun k => if k = j then diag.get (s.pivots.get j) else 0
    extra := 0 }

theorem get_dampingRow (s : Triangular ℝ m n) (diag : Vector ℝ n) (j : Fin n)
    (state : Columns ℝ m n × Vector ℝ n) (k : Fin n) :
    (s.dampingRow diag j state).row.get k = if k = j then diag.get (s.pivots.get j) else 0 := by
  simp [dampingRow, get_eq]

theorem absorbDamping_eq (s : Triangular ℝ m n) (diag : Vector ℝ n) (j : Fin n)
    (state : Columns ℝ m n × Vector ℝ n) :
    s.absorbDamping tall diag j state =
      (((s.dampingRow diag j state).run tall).triangle,
        ((s.dampingRow diag j state).run tall).rhs) :=
  rfl

/-- The product of a column of the triangle with another, or with the right-hand sides. -/
noncomputable def product (tall : n ≤ m) (state : Columns ℝ m n × Vector ℝ n) (i : Fin n)
    (o : Option (Fin n)) : ℝ :=
  ∑ l, coefficient tall state.1 state.2 (some i) l * coefficient tall state.1 state.2 o l

/-- Absorbing entry `j` adds its square to the product of column `j` with itself. -/
theorem absorbDamping_product (s : Triangular ℝ m n) (diag : Vector ℝ n) (j : Fin n)
    (state : Columns ℝ m n × Vector ℝ n) (i : Fin n) (o : Option (Fin n)) :
    product tall (s.absorbDamping tall diag j state) i o =
      product tall state i o +
        if i = j ∧ o = some i then diag.get (s.pivots.get j) ^ 2 else 0 := by
  have kept := (s.dampingRow diag j state).run_product tall (some i) o
  rw [Absorption.product, Absorption.product, Absorption.pending_end, zero_mul, add_zero] at kept
  refine kept.trans (congrArg _ ?_)
  cases o with
  | none => simp [Absorption.pending, dampingRow]
  | some i' =>
    simp only [Absorption.pending, Nat.zero_le, if_true, get_dampingRow, Option.some.injEq]
    split_ifs <;> simp_all [pow_two]

/-! ### Absorbing the damping -/

/-- The products of `S` are those of `R` with the squares of the damping on the diagonal; those with
the right-hand sides are the ones of `R` and `b`. -/
theorem absorbed_product (tall : n ≤ m) (s : Triangular ℝ m n) (diag rhs : Vector ℝ n) (i : Fin n)
    (o : Option (Fin n)) :
    product tall (s.absorbed tall diag rhs) i o =
      product tall (withLowerCopy tall s.r, rhs) i o +
        if o = some i then diag.get (s.pivots.get i) ^ 2 else 0 := by
  have upTo : product tall (s.absorbed tall diag rhs) i o =
      product tall (withLowerCopy tall s.r, rhs) i o +
        if i.val < n ∧ o = some i then diag.get (s.pivots.get i) ^ 2 else 0 := by
    refine foldl_invariant (fun j state => product tall state i o =
      product tall (withLowerCopy tall s.r, rhs) i o +
        if i.val < j ∧ o = some i then diag.get (s.pivots.get i) ^ 2 else 0) (by simp) ?_
    intro j state now
    rw [absorbDamping_product, now, add_assoc]
    refine congrArg _ ?_
    rcases lt_trichotomy i j with before | rfl | after
    · have done : i ≠ j ∧ i.val < j.val ∧ i.val < j.val + 1 := by omega
      simp [done]
    · simp
    · have ahead : i ≠ j ∧ ¬ i.val < j.val ∧ ¬ i.val < j.val + 1 := by omega
      simp [ahead]
  rw [upTo]
  simp

/-- `Sᵀ w = Rᵀ b`. -/
theorem absorbed_gradient (tall : n ≤ m) (s : Triangular ℝ m n) (diag : Vector ℝ n) (i : Fin n) :
    ∑ l with l ≤ i, (s.absorbed tall diag s.qtb).1.lead tall i l *
        (s.absorbed tall diag s.qtb).2.get l = s.gradient tall i := by
  have products := s.absorbed_product tall diag s.qtb i none
  simp only [product, coefficient_withLowerCopy] at products
  simpa [coefficient, gradient, Finset.sum_filter] using products

/-- A damping without zeros leaves none on the diagonal. -/
theorem absorbed_diagonal_ne_zero (tall : n ≤ m) (s : Triangular ℝ m n) {diag : Vector ℝ n}
    (rhs : Vector ℝ n) (nonzero : ∀ j, diag.get j ≠ 0) (i : Fin n) :
    (s.absorbed tall diag rhs).1.lead tall i i ≠ 0 := by
  have marked : ∀ i : Fin n, i.val < n → (s.absorbed tall diag rhs).1.lead tall i i ≠ 0 := by
    refine foldl_invariant (fun j (state : Columns ℝ m n × Vector ℝ n) =>
      ∀ i : Fin n, i.val < j → state.1.lead tall i i ≠ 0) (by omega) ?_
    intro j state now i done
    rw [absorbDamping_eq]
    rcases Nat.lt_succ_iff_lt_or_eq.mp done with earlier | here
    · -- The diagonal does not shrink again.
      have grown := (s.dampingRow diag j state).run_diagonal_le tall i
      have positive : 0 < state.1.lead tall i i ^ 2 := pow_two_pos_of_ne_zero (now i earlier)
      intro zero
      rw [zero] at grown
      exact absurd (lt_of_lt_of_le positive grown) (by norm_num)
    · obtain rfl : i = j := Fin.ext here
      apply Absorption.run_diagonal_ne_zero
      · intro k before
        rw [get_dampingRow, if_neg (ne_of_lt before)]
      · rw [get_dampingRow, if_pos rfl]
        exact nonzero _
  exact marked i i.isLt

/-! ### Substituting back -/

/-- Before the unknown `k - 1` of `S z = w` is found: those from `k` on have been found, the others
still hold their right-hand sides. -/
structure Substituted (tall : n ≤ m) (a : Columns ℝ m n) (sdiag : Vector ℝ n) (rank : Nat)
    (rhs : Vector ℝ n) (k : Nat) (z : Vector ℝ n) : Prop where
  zeros : ∀ j : Fin n, rank ≤ j → z.get j = 0
  ahead : ∀ j : Fin n, j < rank → j.val < k → z.get j = rhs.get j
  found : ∀ j : Fin n, j < rank → k ≤ j.val → sdiag.get j * z.get j +
    ∑ i : Fin n with j < i ∧ i < rank, a.lead tall i j * z.get i = rhs.get j

/-- Finding unknown `k`. -/
theorem Substituted.find {a : Columns ℝ m n} {sdiag : Vector ℝ n} {rank : Nat} {rhs : Vector ℝ n}
    {k : Fin n} {z : Vector ℝ n} (h : Substituted tall a sdiag rank rhs (k + 1) z)
    (inside : k < rank) (nonzero : sdiag.get k ≠ 0) :
    Substituted tall a sdiag rank rhs k (overwriteAt z k ((z.get k -
      ∑ i : Fin n with k < i ∧ i < rank, a.lead tall i k * z.get i) / sdiag.get k)) := by
  set x := (z.get k - ∑ i : Fin n with k < i ∧ i < rank, a.lead tall i k * z.get i) / sdiag.get k
    with x_eq
  have other {i : Fin n} (ne : k ≠ i) : (overwriteAt z k x).get i = z.get i := by
    rw [get_overwriteAt, if_neg ne]
  have later (j : Fin n) (le : k ≤ j) :
      ∑ i : Fin n with j < i ∧ i < rank, a.lead tall i j * (overwriteAt z k x).get i =
        ∑ i : Fin n with j < i ∧ i < rank, a.lead tall i j * z.get i := by
    refine Finset.sum_congr rfl fun i member => ?_
    rw [other (ne_of_lt (lt_of_le_of_lt le (Finset.mem_filter.mp member).2.1))]
  exact {
    zeros := fun j past => by
      rw [other (by rintro rfl; omega)]
      exact h.zeros j past
    ahead := fun j below before => by
      rw [other (by rintro rfl; omega)]
      exact h.ahead j below (by omega)
    found := fun j below le => by
      rw [later j le]
      rcases eq_or_lt_of_le le with here | past
      · obtain rfl : k = j := Fin.ext here
        rw [get_overwriteAt, if_pos rfl, x_eq, mul_div_cancel₀ _ nonzero,
          h.ahead k below (by omega)]
        ring
      · rw [other (ne_of_lt past)]
        exact h.found j below past }

theorem backSubstitute_substituted (a : Columns ℝ m n) {sdiag : Vector ℝ n} {rank : Nat}
    (rhs : Vector ℝ n) (nonzero : ∀ j : Fin n, j < rank → sdiag.get j ≠ 0) :
    Substituted tall a sdiag rank rhs 0 (backSubstitute tall a sdiag rank rhs) := by
  refine foldr_invariant (fun k z => Substituted tall a sdiag rank rhs k z) ?_ ?_
  · exact {
      zeros := fun j past => by rw [get_overwriteWhere, if_pos past]
      ahead := fun j inside _ => by rw [get_overwriteWhere, if_neg (not_le.mpr inside)]
      found := fun j _ none => absurd none (by omega) }
  · intro k z now
    split
    next inside =>
      dsimp only
      rw [sumWhere_real]
      exact now.find inside (nonzero k inside)
    next outside =>
      exact {
        zeros := now.zeros
        ahead := fun j below before => now.ahead j below (by omega)
        found := fun j below le => now.found j below (by omega) }

/-! ### Damped solves -/

theorem get_damped_sdiag (s : Triangular ℝ m n) (diag x sdiag permuted : Vector ℝ n) (i : Fin n) :
    (s.damped tall diag x sdiag permuted).sdiag.get i =
      (s.absorbed tall diag s.qtb).1.lead tall i i := by
  simp only [damped, get_overwrite, overwrite_get]
  rfl

theorem damped_sdiag_ne_zero (s : Triangular ℝ m n) {diag : Vector ℝ n}
    (x sdiag permuted : Vector ℝ n) (nonzero : ∀ j, diag.get j ≠ 0) (i : Fin n) :
    (s.damped tall diag x sdiag permuted).sdiag.get i ≠ 0 := by
  rw [get_damped_sdiag]
  exact s.absorbed_diagonal_ne_zero tall s.qtb nonzero i

theorem damped_substituted (tall : n ≤ m) (s : Triangular ℝ m n)
    (diag x sdiag permuted : Vector ℝ n) :
    let done := s.damped tall diag x sdiag permuted
    Substituted tall done.r done.sdiag done.rank (s.absorbed tall diag s.qtb).2 0
      done.permuted := by
  intro done
  have result : done.permuted = backSubstitute tall done.r done.sdiag done.rank
      (s.absorbed tall diag s.qtb).2 := by
    simp only [done, damped, overwrite_get]
    rfl
  rw [result]
  exact backSubstitute_substituted _ _ fun i before =>
    beq_eq_false_iff_ne.mp (eq_false_of_lt_firstIndex before)

/-- Before the first zero on the diagonal, the solution `z` in pivoted order satisfies `S z = w`. -/
theorem damped_row (s : Triangular ℝ m n) (diag x sdiag permuted : Vector ℝ n) {j : Fin n}
    (inside : j < (s.damped tall diag x sdiag permuted).rank) :
    ∑ i with j ≤ i, (s.absorbed tall diag s.qtb).1.lead tall i j *
        (s.damped tall diag x sdiag permuted).permuted.get i =
      (s.absorbed tall diag s.qtb).2.get j := by
  set S := (s.absorbed tall diag s.qtb).1
  have below {i : Fin n} (lt : j < i) : (s.damped tall diag x sdiag permuted).r.lead tall i j =
      S.lead tall i j := by
    simp only [damped, overwrite_get, Columns.lead_withDiagonal]
    exact if_neg (ne_of_gt lt)
  have substituted := s.damped_substituted tall diag x sdiag permuted
  have found := substituted.found j inside (Nat.zero_le _)
  rw [get_damped_sdiag] at found
  rw [← found]
  refine (sum_from _ j).trans (congrArg _ ?_)
  rw [Finset.sum_filter, Finset.sum_filter]
  refine Finset.sum_congr rfl fun i _ => ?_
  by_cases after : j < i
  · rw [if_pos (show j.val + 1 ≤ i.val from after), below after]
    split
    · rfl
    next outside =>
      -- From the first zero on, the solution is zero.
      rw [substituted.zeros i (not_lt.mp fun before => outside ⟨after, before⟩), mul_zero]
  · rw [if_neg (show ¬ j.val + 1 ≤ i.val from after), if_neg fun both => after both.1]

/-- With a damping without zeros, the solution satisfies all of `S z = w`. -/
theorem damped_solves (s : Triangular ℝ m n) {diag : Vector ℝ n} (x sdiag permuted : Vector ℝ n)
    (nonzero : ∀ j, diag.get j ≠ 0) (j : Fin n) :
    ∑ i with j ≤ i, (s.absorbed tall diag s.qtb).1.lead tall i j *
        (s.damped tall diag x sdiag permuted).permuted.get i =
      (s.absorbed tall diag s.qtb).2.get j := by
  have full : (s.damped tall diag x sdiag permuted).rank = n := firstIndex_eq fun i =>
    beq_eq_false_iff_ne.mpr (s.damped_sdiag_ne_zero x sdiag permuted nonzero i)
  refine s.damped_row diag x sdiag permuted ?_
  rw [full]
  exact j.isLt

/-- The solution can only be zero if `Rᵀ b` is. -/
theorem damped_ne_zero {s : Triangular ℝ m n} {diag : Vector ℝ n} (x sdiag permuted : Vector ℝ n)
    (apart : Function.Injective s.pivots.get) (nonzero : ∀ j, diag.get j ≠ 0) {i : Fin n}
    (steep : s.gradient tall i ≠ 0) :
    ∃ j, (s.damped tall diag x sdiag permuted).x.get j ≠ 0 := by
  by_contra! zero
  have flat (j : Fin n) : (s.damped tall diag x sdiag permuted).permuted.get j = 0 := by
    rw [← zero (s.pivots.get j)]
    exact (get_scatter apart ..).symm
  apply steep
  rw [← s.absorbed_gradient tall diag]
  refine Finset.sum_eq_zero fun l _ => ?_
  rw [← s.damped_solves x sdiag permuted nonzero l,
    Finset.sum_eq_zero fun i _ => by rw [flat, mul_zero], mul_zero]

end Triangular

end LeastSquares
