/-!
# Numbers

The arithmetic every routine of the library is written over. A routine fixes the order of its
operations, never their meaning: the same definition runs in double precision and can be read
over an ordered field.
-/
namespace LeastSquares

/-- Arithmetic, order tests and roots of one number format, together with its constants. -/
class Numeric (α : Type) extends Zero α, One α, Add α, Sub α, Mul α, Div α, Neg α,
    OfScientific α, LT α, LE α, BEq α where
  decLt : DecidableLT α
  decLe : DecidableLE α
  ofNat : Nat → α
  sqrt : α → α
  abs : α → α
  exp : α → α
  /-- The larger operand. An operand that is not a number gives way to the other. -/
  larger : α → α → α
  /-- The smaller operand. An operand that is not a number gives way to the other. -/
  smaller : α → α → α
  /-- The distance from one to the next larger number. -/
  epsilon : α
  /-- The smallest positive number of full precision. -/
  tiny : α

attribute [reducible, instance] Numeric.decLt Numeric.decLe

/-- Double precision. Of two zeros of opposite sign `larger` and `smaller` take the second. -/
instance : Numeric Float where
  zero := 0.0
  one := 1.0
  decLt := inferInstance
  decLe := inferInstance
  ofNat := Float.ofNat
  sqrt := Float.sqrt
  abs := Float.abs
  exp := Float.exp
  larger x y := if y.isNaN || x > y then x else y
  smaller x y := if y.isNaN || x < y then x else y
  epsilon := 2.220446049250313e-16
  tiny := 2.2250738585072014e-308

end LeastSquares
