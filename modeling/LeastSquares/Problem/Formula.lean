import LeastSquares.Problem
import LeastSquares.Buffer

/-!
# Problems given by formulas

A formula is a list of instructions for a stack of numbers: operands come before the operator
that takes them, and the value is what lies on top at the end. Residuals are the values of
several formulas, or the differences between observations and one formula at several times.
-/
namespace LeastSquares

inductive UnaryOp where
  | neg
  | abs
  | sqrt
  | floor
  | exp
  | log
  | sin
  | cos
  deriving DecidableEq, Repr

def UnaryOp.apply : UnaryOp → Float → Float
  | neg, x => -x
  | abs, x => x.abs
  | sqrt, x => x.sqrt
  | floor, x => x.floor
  | exp, x => x.exp
  | log, x => x.log
  | sin, x => x.sin
  | cos, x => x.cos

inductive BinaryOp where
  | add
  | sub
  | mul
  | div
  | atan2
  deriving DecidableEq, Repr

def BinaryOp.apply : BinaryOp → Float → Float → Float
  | add, x, y => x + y
  | sub, x, y => x - y
  | mul, x, y => x * y
  | div, x, y => x / y
  | atan2, x, y => Float.atan2 x y

inductive Instruction where
  | constant (x : Float)
  | parameter (i : Nat)
  | time
  | unary (op : UnaryOp)
  /-- The right operand is on top of the stack. -/
  | binary (op : BinaryOp)

namespace Instruction

/-- Carry out an instruction. Operands and parameters that are missing count as zero. -/
def step (params : Array Float) (t : Float) (stack : List Float) : Instruction → List Float
  | constant x => x :: stack
  | parameter i => params.getD i 0 :: stack
  | time => t :: stack
  | unary op => op.apply (stack.headD 0) :: stack.tail
  | binary op => op.apply (stack.tail.headD 0) (stack.headD 0) :: stack.tail.tail

end Instruction

abbrev Formula := List Instruction

namespace Formula

def value (f : Formula) (params : Array Float) (t : Float) : Float :=
  (f.foldl (Instruction.step params t) []).headD 0

/-- The problem whose residuals are the values of the given formulas. -/
def system (formulas : Array Formula) (n : Nat) : Problem Float where
  residualCount := formulas.size
  parameterCount := n
  eval _ x buffer :=
    let residual (i : Fin formulas.size) : Float := formulas[i].value x.toArray 0
    ⟨overwriteHead buffer residual, none⟩

/-- The problem of fitting a formula to values observed at the given times. -/
def fitting (f : Formula) (n : Nat) (times observed : Array Float) : Problem Float where
  residualCount := times.size
  parameterCount := n
  eval _ x buffer :=
    let residual (i : Fin times.size) : Float :=
      observed.getD i 0 - f.value x.toArray times[i]
    ⟨overwriteHead buffer residual, none⟩

end Formula

end LeastSquares
