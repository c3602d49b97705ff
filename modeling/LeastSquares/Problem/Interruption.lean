import LeastSquares.Problem
import LeastSquares.Buffer

/-!
# Problems that fail on purpose

A problem can be made to fail at certain calls, after writing part of its residuals. This shows
what a solve does with an evaluation that goes wrong.
-/
namespace LeastSquares

variable {α : Type} [Scalar α]

/-- A failure at the call of the given number, after so many residuals have been written. -/
structure Interruption (α : Type) where
  call : Nat
  written : Nat
  error : Error α

def Problem.interrupted (p : Problem α) (interruptions : List (Interruption α)) : Problem α :=
  { p with
    eval := fun number x buffer =>
      match interruptions.find? fun i => i.call == number with
      | none => p.eval number x buffer
      | some i =>
        -- Only the head of what the evaluation leaves is written.
        let full := (p.eval number x buffer).buffer
        ⟨overwriteWhere buffer (· < i.written) full.get, some i.error⟩ }

end LeastSquares
