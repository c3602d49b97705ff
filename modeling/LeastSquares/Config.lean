import LeastSquares.Norm
import LeastSquares.Error

/-!
# Configuration

Tolerances, evaluation budget and scaling of a solve, and the conditions under which a solve
accepts them.
-/
namespace LeastSquares

/-- How the variables are scaled when the length of a step is measured. -/
inductive Scaling where
  /-- By the norms of the Jacobian columns, never decreasing. -/
  | auto
  /-- By positive factors of the caller. -/
  | explicit
  deriving DecidableEq, Repr

structure Config (α : Type) where
  /-- Tolerance on the relative reduction of the sum of squares. -/
  ftol : α
  /-- Tolerance on the relative length of a step. -/
  xtol : α
  /-- Tolerance on the cosine between the residuals and the Jacobian columns. -/
  gtol : α
  /-- The most residual evaluations; by default two hundred for each parameter and two hundred
  more, counted in 64 bits. -/
  maxfev : Option Nat
  /-- The relative error of the residuals, from which the difference step follows. -/
  epsfcn : α
  /-- The first radius, as a multiple of the scaled starting point. -/
  factor : α
  scaling : Scaling
  /-- Whether a fit reports the covariance of its parameters. -/
  calcCovariance : Bool
  deriving BEq

namespace Config

variable {α : Type} [Scalar α]

def default : Config α where
  ftol := sqrt Numeric.epsilon
  xtol := sqrt Numeric.epsilon
  gtol := 0
  maxfev := none
  epsfcn := 0
  factor := Numeric.ofNat 100
  scaling := .auto
  calcCovariance := false

def budget (c : Config α) (n : Nat) : Nat :=
  c.maxfev.getD (200 * (n + 1) % UInt64.size)

/-- Accept the configuration for `m` residuals and `n` parameters, or give the first reason not
to. Every test is worded so that a value that is not a number fails it. -/
def validate (c : Config α) (m n : Nat) (diag : Array α) : Except (Error α) Unit :=
  if n = 0 then .error .noParameters
  else if m < n then .error (.tooFewResiduals m n)
  else if ¬ (0 ≤ c.ftol) ∨ ¬ (0 ≤ c.xtol) ∨ ¬ (0 ≤ c.gtol) then
    .error (.negativeTolerance c.ftol c.xtol c.gtol)
  else if c.budget n = 0 then .error .emptyBudget
  else if ¬ (0 < c.factor) then .error (.factorNotPositive c.factor)
  else match c.scaling with
    | .auto => .ok ()
    | .explicit =>
      if diag.size ≠ n then .error (.scalingCount n diag.size)
      else match h : diag.findFinIdx? fun d => ¬ (0 < d) with
        | some j => .error (.scalingNotPositive j diag[j])
        | none => .ok ()

end Config

end LeastSquares
