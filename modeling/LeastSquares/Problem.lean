import LeastSquares.Norm
import LeastSquares.Error

/-!
# Problems

A least-squares problem is a residual function. The function may fail, may leave part of its
buffer untouched when it does, and may depend on how often it has been called; nothing else of
its surroundings can reach it. It answers at points and with buffers of any length, whatever
lengths the problem is declared with.
-/
namespace LeastSquares

/-- The buffer as a call of a residual function left it, and the error it ended with, if any. -/
structure Response (α : Type) (m : Nat) where
  buffer : Vector α m
  failure : Option (Error α)

/-- A problem of `residualCount` residuals in `parameterCount` parameters. -/
structure Problem (α : Type) where
  residualCount : Nat
  parameterCount : Nat
  /-- The response to the call of the given number, counted from one, at the given point and with
  the given contents of the residual buffer. -/
  eval {m n : Nat} (number : Nat) (point : Vector α n) (buffer : Vector α m) : Response α m

inductive Purpose where
  | start
  | column (j : Nat)
  | trial
  deriving DecidableEq, Repr

structure Call (α : Type) (m n : Nat) where
  purpose : Purpose
  point : Vector α n
  response : Response α m

/-- The calls made of one problem, first to last. -/
abbrev Calls (α : Type) (m n : Nat) := Array (Call α m n)

namespace Problem

variable {α : Type} {m n : Nat} (p : Problem α)

def call (calls : Calls α m n) (purpose : Purpose) (point : Vector α n) (buffer : Vector α m) :
    Call α m n :=
  { purpose, point, response := p.eval (calls.size + 1) point buffer }

/-- The sum of squared residuals at `point`, by the call of the given number. -/
def cost [Numeric α] (number : Nat) (point : Vector α n) : Except (Error α) α :=
  let response := p.eval number point (Vector.replicate p.residualCount 0)
  match response.failure with
  | some e => .error e
  -- A sum of nothing is the negative zero.
  | none => .ok (response.buffer.foldl (fun s r => s + r * r) (-0))

end Problem

end LeastSquares
