import LeastSquares.Checked.Solve
import LeastSquares.Proofs.Checked.Linearize
import LeastSquares.Proofs.Checked.Attempt

/-!
# Solves stay in bounds

A solve on checked storage never meets an index out of bounds, whatever the residuals evaluate to,
and ends with the very result of the solve. That there are at least as many residuals as parameters
is decided before the first loop; it is all that the steps rely on.
-/
namespace LeastSquares.Checked

section

variable {α : Type} [Scalar α] {p : Problem α} (zero : ((0 : α) == 0) = true) (c : Config α)

include zero

theorem next_eq (tall : p.parameterCount ≤ p.residualCount) (stage : Stage p) :
    next c stage = some (stage.next tall c) := by
  cases stage with
  | linearize s => exact linearize_eq tall c s
  | attempt s => exact attempt_eq tall c s zero
  | stopped info s => rfl

theorem run_eq (tall : p.parameterCount ≤ p.residualCount) (steps : Nat) (stage : Stage p) :
    run c steps stage = some (stage.run tall c steps) := by
  induction steps generalizing stage with
  | zero => rfl
  | succ steps ih =>
    rw [Stage.run_succ, ← ih]
    cases stage with
    | linearize s => exact bind_of_some (next_eq zero c tall (.linearize s)) _
    | attempt s => exact bind_of_some (next_eq zero c tall (.attempt s)) _
    | stopped info s => cases steps <;> rfl

theorem solve_eq (p : Problem α) (x residuals diag : Array α) (w : Workspace α) :
    solve p c x residuals diag w = some (LeastSquares.solve p c x residuals diag w) := by
  unfold solve LeastSquares.solve
  cases Admission.of p c x residuals diag w with
  | error e => rfl
  | ok a => exact (bind_of_some (run_eq zero c a.tall _ _) _).trans rfl

end

/-- In double precision, where residuals may be infinite or no numbers at all, a solve reads and
writes no vector or matrix out of bounds. After every factorization with pivoting the pivots are a
permutation, whatever the matrix and the buffers hold. -/
theorem solve_in_bounds (p : Problem Float) (c : Config Float) (x residuals diag : Array Float)
    (w : Workspace Float) :
    solve p c x residuals diag w = some (LeastSquares.solve p c x residuals diag w) ∧
      ∀ {m n : Nat} (f : Factor Float m n),
        ∃ g, f.compute true = some g ∧ g.pivots.toList.Perm (List.range n) :=
  ⟨solve_eq (by decide) c p x residuals diag w, Factor.compute_perm⟩

end LeastSquares.Checked
