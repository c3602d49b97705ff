import LeastSquares.Proofs.Exact.Radius

/-!
# The undamped step as a damped one

A search solves for the undamped step on the upper triangle, column by column, and looks for the
first zero on its diagonal. A damped solve works on the transposed copy, row by row, and looks for
the first zero on the diagonal that its rotations have left. Without errors of rounding a damping of
zero makes them the same: no rotation turns anything, both cut the system off at the same unknown,
and the equations of the leading block have one solution.
-/
namespace LeastSquares

open Matrix

variable {m n : Nat} {tall : n ≤ m}

namespace Triangular

variable {s : Triangular ℝ m n} {damping : Vector ℝ n}

/-! ### Rotations -/

/-- A row of zeros is absorbed without a trace. -/
theorem run_of_zeros {a : Absorption ℝ m n} (zeros : ∀ k, a.row.get k = 0) : a.run tall = a := by
  refine foldl_invariant (fun _ (b : Absorption ℝ m n) => b = a) rfl ?_
  rintro k b rfl
  exact Absorption.rotate_of_zero (zeros k)

theorem absorbDamping_of_zero {j : Fin n} (zero : damping.get (s.pivots.get j) = 0)
    (state : Columns ℝ m n × Vector ℝ n) : s.absorbDamping tall damping j state = state := by
  have still : (s.dampingRow damping j state).run tall = s.dampingRow damping j state :=
    run_of_zeros fun k => by rw [get_dampingRow, zero, ite_self]
  rw [absorbDamping_eq, still]
  rfl

/-- With a damping of zero, the copy of `R` is left as it is. -/
theorem absorbed_of_zero (zero : ∀ j, damping.get j = 0) (rhs : Vector ℝ n) :
    s.absorbed tall damping rhs = (withLowerCopy tall s.r, rhs) := by
  refine foldl_invariant (fun _ state => state = (withLowerCopy tall s.r, rhs)) rfl ?_
  rintro j state rfl
  exact absorbDamping_of_zero (zero _) _

/-! ### The triangle and its rank -/

/-- So `S` is `R`. -/
theorem damped_triangle_of_zero (zero : ∀ j, damping.get j = 0) (x sdiag permuted : Vector ℝ n) :
    (s.damped tall damping x sdiag permuted).triangle tall = s.r.upper tall := by
  rw [damped_triangle, absorbed_of_zero zero]
  ext l i
  change (if l ≤ i then (withLowerCopy tall s.r).lead tall i l else 0) =
    if l ≤ i then s.r.lead tall l i else 0
  refine ite_congr rfl (fun upper => ?_) fun _ => rfl
  exact lead_withLowerCopy s.r upper

/-- The first zero is found at the same position. -/
theorem damped_rank_of_zero (zero : ∀ j, damping.get j = 0) (x sdiag permuted : Vector ℝ n) :
    (s.damped tall damping x sdiag permuted).rank = s.rank tall := by
  refine congrArg firstIndex (funext fun j => congrArg (· == 0) ?_)
  rw [get_damped_sdiag, absorbed_of_zero zero]
  exact lead_withLowerCopy s.r le_rfl

/-! ### The solution -/

/-- What a solve with a damping of zero finds is an undamped step. -/
theorem damped_gaussNewton (apart : Function.Injective s.pivots.get) (zero : ∀ j, damping.get j = 0)
    (x sdiag permuted : Vector ℝ n) :
    s.GaussNewton tall (s.damped tall damping x sdiag permuted).x := by
  set done := s.damped tall damping x sdiag permuted
  have order : done.x.get ∘ s.pivots.get = done.permuted.get :=
    funext fun j => get_scatter apart ..
  have rank : done.rank = s.rank tall := damped_rank_of_zero zero x sdiag permuted
  refine ⟨fun j past => ?_, fun i inside => ?_⟩
  · rw [← rank] at past
    have solved := s.damped_substituted tall damping x sdiag permuted
    exact (congrFun order j).trans (solved.zeros j past)
  · rw [← rank] at inside
    -- Row `i` of `S z = w`, in which nothing has been turned.
    have row := s.damped_row damping x sdiag permuted inside
    rw [absorbed_of_zero zero] at row
    rw [order, ← row]
    refine (sum_masked (i ≤ ·) ..).trans (Finset.sum_congr rfl fun j member => ?_)
    rw [lead_withLowerCopy s.r (Finset.mem_filter.mp member).2]

/-- Without errors of rounding, whatever the triangle `R`, with zeros anywhere on its diagonal, and
whatever the right-hand sides: the undamped step that a search begins with is, entry by entry, what
a damped solve returns when all entries of the damping are zero, and the two agree in the order of
the pivots as well. That solve finds the first zero of the diagonal where the search does, and
leaves `R` for `S`. A search that makes no trial therefore hands over the step of that solve. -/
theorem undamped_eq_damped (tall : n ≤ m) (s : Triangular ℝ m n)
    (permutation : Function.Bijective s.pivots.get) (diag : Vector ℝ n)
    (buffers : SearchBuffers ℝ n) (x sdiag permuted : Vector ℝ n) :
    let start := s.undampedStep tall diag buffers
    let done := s.damped tall (.replicate n 0) x sdiag permuted
    (∀ i, start.x.get i = done.x.get i) ∧
      (∀ j, start.direction.get j = done.permuted.get j) ∧
      s.rank tall = done.rank ∧ s.r.upper tall = done.triangle tall ∧
      ∀ delta par, let found := s.search tall diag delta par buffers
        found.trials = 0 → ∀ i, found.buffers.x.get i = done.x.get i := by
  intro start done
  have apart := permutation.injective
  have zero (j : Fin n) : (Vector.replicate n (0 : ℝ)).get j = 0 := by simp [get_eq]
  have same : start.x = done.x :=
    (undampedStep_gaussNewton apart diag buffers).unique permutation
      (damped_gaussNewton apart zero x sdiag permuted)
  refine ⟨fun i => congrArg (·.get i) same, fun j => ?_,
    (damped_rank_of_zero zero x sdiag permuted).symm,
    (damped_triangle_of_zero zero x sdiag permuted).symm, fun delta par => ?_⟩
  · calc start.direction.get j
        = start.x.get (s.pivots.get j) := (get_scatter apart ..).symm
      _ = done.x.get (s.pivots.get j) := by rw [same]
      _ = done.permuted.get j := get_scatter apart ..
  · intro found still i
    by_cases short : s.undampedLength tall diag buffers - delta ≤ 0.1 * delta
    · have here : found = ⟨0, 0, s.r, start⟩ := search_of_short short
      rw [here]
      exact congrArg (·.get i) same
    · obtain ⟨k, -, -, trials, -⟩ := @search_ends ℝ _ m n tall s diag delta par buffers short
      exact absurd (trials.symm.trans still) (Nat.succ_ne_zero k)

/-- A triangle with a zero inside its diagonal, its columns rotated. What lies below the diagonal is
no part of it. -/
noncomputable def interrupted : Triangular ℝ 3 3 :=
  { r := #v[#v[-1, 1, 1], #v[1, 0, -1], #v[0, 1, 1]]
    pivots := .ofFn (finRotate 3).symm
    qtb := #v[1, -1, 1] }

theorem interrupted_pivots : interrupted.pivots.get = (finRotate 3).symm := by
  funext j
  simp [interrupted, get_eq]

/-- Of the solve with a damping of zero, only the first unknown is not cut off. -/
theorem undamped_eq_damped_interrupted :
    Function.Bijective interrupted.pivots.get ∧
      (interrupted.damped (Nat.le_refl 3) (.replicate 3 0) #v[0, 0, 0] #v[0, 0, 0] #v[0, 0, 0]).x =
        #v[0, 0, -1] := by
  have bijective : Function.Bijective interrupted.pivots.get :=
    interrupted_pivots ▸ (finRotate 3).symm.bijective
  obtain ⟨same, -⟩ := undamped_eq_damped (Nat.le_refl 3) interrupted bijective #v[1, 1, 1]
    ⟨#v[0, 0, 0], #v[0, 0, 0], #v[0, 0, 0], #v[0, 0, 0]⟩ #v[0, 0, 0] #v[0, 0, 0] #v[0, 0, 0]
  refine ⟨bijective, (eq_of_get_eq same).symm.trans ?_⟩
  refine (undampedStep_gaussNewton bijective.injective _ _).unique bijective ?_
  have first : interrupted.r.lead (Nat.le_refl 3) 0 0 = -1 := rfl
  have second : interrupted.r.lead (Nat.le_refl 3) 1 1 = 0 := rfl
  have values : (#v[0, 0, -1] : Vector ℝ 3).get ∘ interrupted.pivots.get = ![-1, 0, 0] := by
    rw [interrupted_pivots]
    funext j
    fin_cases j <;> rfl
  exact {
    zeros := fun j past => by
      refine (congrFun values j).trans ?_
      fin_cases j
      · have found : interrupted.rank (Nat.le_refl 3) < 3 := lt_of_le_of_lt past three_pos
        have zero : (interrupted.r.lead (Nat.le_refl 3) ⟨_, found⟩ ⟨_, found⟩ == 0) = true :=
          firstIndex_spec found
        rw [show (⟨_, found⟩ : Fin 3) = 0 from Fin.ext (Nat.le_zero.mp past), first] at zero
        exact absurd (beq_iff_eq.mp zero) (by norm_num)
      · rfl
      · rfl
    solved := fun i inside => by
      have inside : i.val < 1 := by
        by_contra past
        exact diagonal_ne_zero (k := 1) (lt_of_le_of_lt (not_lt.mp past) inside) second
      obtain rfl : i = 0 := Fin.ext (Nat.lt_one_iff.mp inside)
      rw [values, mulVec, dotProduct, Fin.sum_univ_three]
      change (-1 : ℝ) * -1 + 1 * 0 + 0 * 0 = 1
      norm_num }

end Triangular

end LeastSquares
