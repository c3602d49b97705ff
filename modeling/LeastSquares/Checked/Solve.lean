import LeastSquares.Checked.Linearize
import LeastSquares.Checked.Attempt
import LeastSquares.Solver.Run

/-!
# Solving on checked storage

The whole solve by a program that compares every index with the length of what it is used on, and
ends without a result at the first one out of bounds. Nothing it is given says that there are at
least as many residuals as parameters, or that the pivots are a permutation.
-/
namespace LeastSquares.Checked

variable {α : Type} [Scalar α] {p : Problem α}

def next (c : Config α) : Stage p → Option (Stage p)
  | .linearize s => linearize c s
  | .attempt s => attempt c s
  | .stopped info s => some (.stopped info s)

def run (c : Config α) : Nat → Stage p → Option (Stage p)
  | 0, stage => some stage
  | _ + 1, .stopped info s => some (.stopped info s)
  | steps + 1, stage => do run c steps (← next c stage)

def solve (p : Problem α) (c : Config α) (x residuals diag : Array α) (w : Workspace α) :
    Option (Run p) :=
  match Admission.of p c x residuals diag w with
  | .error e => some (.rejected x residuals diag w e)
  | .ok a => do
    let last ← run c (stepBound (c.budget p.parameterCount))
      (State.start c a.x a.residuals a.diag a.buffers)
    let (info, s) := last.result
    return .ended info s

end LeastSquares.Checked
