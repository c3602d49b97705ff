/-!
# Doubles as exact numbers

A finite double is `mantissa * 2 ^ exponent`, with a sign.
-/
namespace LeastSquares

inductive Binary where
  | notANumber
  | infinite
  | finite (mantissa : Nat) (exponent : Int)
  deriving DecidableEq, Repr

namespace Binary

def ofFloat (x : Float) : Binary :=
  let bits := x.toBits.toNat
  let fraction := bits % (1 <<< 52)
  let biased : Nat := (bits >>> 52) % (1 <<< 11)
  if biased = 2047 then if fraction = 0 then infinite else notANumber
  else if biased = 0 then finite fraction (-1074)
  else finite (fraction + (1 <<< 52)) (biased - 1075)

def isNegative (x : Float) : Bool :=
  1 <<< 63 ≤ x.toBits.toNat

end Binary

end LeastSquares
