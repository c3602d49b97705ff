import LeastSquares.Solver.Run
import LeastSquares.Uncertainty.Covariance
import LeastSquares.Shape

/-!
# Fitting one problem

A solve that brings its own buffers and, if the configuration asks for it, reports the covariance
of the parameters.
-/
namespace LeastSquares

variable {α : Type} [Scalar α]

structure Fit (α : Type) where
  params : Array α
  residuals : Array α
  diag : Array α
  outcome : Outcome α
  covariance : Option (Square α)

namespace Fit

def converged (f : Fit α) : Bool :=
  f.outcome.info.isConverged

def cost (f : Fit α) : α :=
  f.outcome.fnorm * f.outcome.fnorm

/-- Turn rejected input and aborts into errors, keep every other outcome. -/
def checked (f : Fit α) : Except (Error α) (Fit α) :=
  match f.outcome.info with
  | .invalidInput => .error .improperInput
  | .userAbort status => .error (.aborted status)
  | _ => .ok f

end Fit

/-- The variance of the residuals: their sum of squares for each residual beyond the number of
parameters, or one if there is none. -/
def residualVariance (m n : Nat) (fnorm : α) : α :=
  if n < m then fnorm * fnorm / Numeric.ofNat (m - n) else 1

def Run.covariance {p : Problem α} (r : Run p) : Except (Error α) (Square α) :=
  let m := r.workspace.residualCount
  let n := r.workspace.parameterCount
  if tall : n ≤ m then
    let triangle := r.workspace.buffers.jacobian.upperTriangle tall (Nat.le_refl n)
    .ok ⟨n, LeastSquares.covariance (Nat.le_refl n) triangle r.workspace.buffers.pivots
      (residualVariance m n r.outcome.fnorm)⟩
  else .error (.factorShape m m n)

/-- Solve from `start` with the given scaling. The result comes with the run that led to it. -/
def fitWithScaling (p : Problem α) (c : Config α) (start diag : Array α) : Fit α × Run p :=
  let run := solve p c start (Array.replicate p.residualCount 0) diag
    (.new p.residualCount start.size)
  let fit (covariance : Option (Square α)) : Fit α :=
    { params := run.x
      residuals := run.residuals
      diag := run.diag
      outcome := run.outcome
      covariance }
  -- A solve that was refused or aborted has no factorization to speak of.
  if c.calcCovariance && !run.outcome.info.isError then
    match run.covariance with
    | .ok covariance => (fit covariance, run)
    | .error e =>
      (fit none, { run with events := run.events.push (.covarianceUnavailable e) })
  else (fit none, run)

def fit (p : Problem α) (c : Config α) (start : Array α) : Fit α × Run p :=
  fitWithScaling p c start (Array.replicate start.size 1)

end LeastSquares
