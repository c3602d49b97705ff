import LeastSquares.Json.Value

/-!
# Reading numbers

An integer is read as such when it fits the type asked for. A double is read from as many leading
digits as fit in 64 bits, by one multiplication or division with a power of ten: exact for short
numbers, and within a rounding or two for all others. A number too large for a double is refused.
-/
namespace LeastSquares

namespace Json

/-- Leading digits as a whole number, and the power of ten it is to be multiplied with. -/
structure Significand where
  digits : Nat
  exponent : Int
  deriving DecidableEq, Repr

namespace Significand

def takes (s : Significand) (d : Nat) : Bool :=
  s.digits * 10 + d < UInt64.size

/-- Take digits before the point while they fit, and count the others. -/
def addWhole (s : Significand) : List Nat → Significand
  | [] => s
  | d :: ds =>
    if s.takes d then addWhole { s with digits := s.digits * 10 + d } ds
    else { s with exponent := s.exponent + (d :: ds).length }

/-- Take digits after the point while they fit, and drop the others. -/
def addFraction (s : Significand) : List Nat → Significand
  | [] => s
  | d :: ds =>
    if s.takes d then addFraction ⟨s.digits * 10 + d, s.exponent - 1⟩ ds else s

/-- Multiply with a power of ten, in steps that are themselves doubles. The number of steps left
bounds the recursion. -/
def scale (f : Float) (exponent : Int) : Nat → Option Float
  | 0 => some f
  | more + 1 =>
    if exponent.natAbs ≤ 308 then
      let power := Float.ofScientific 1 false exponent.natAbs
      if 0 ≤ exponent then
        let scaled := f * power
        if scaled.isInf then none else some scaled
      else some (f / power)
    -- No power of ten makes more than zero of zero.
    else if f == 0 then some f
    else if 0 ≤ exponent then none
    else scale (f / 1e308) (exponent + 308) more

/-- The double nearest to the digits, scaled by the exponent. -/
def toFloat? (s : Significand) : Option Float :=
  scale (Float.ofNat s.digits) s.exponent (s.exponent.natAbs / 308 + 1)

end Significand

def maxExponent : Nat := UInt32.size / 2 - 1

namespace Numeral

def significand (n : Numeral) : Significand :=
  (Significand.addWhole ⟨0, 0⟩ n.whole).addFraction n.fraction

/-- The magnitude of a number as a double. An exponent out of bounds makes a number zero or, if
positive, too large; zero stays zero. -/
def magnitude? (n : Numeral) : Option Float :=
  let s := n.significand
  match n.exponent with
  | none => s.toFloat?
  | some (negative, digits) =>
    let e : Nat := digits.foldl (fun e d => e * 10 + d) 0
    if e ≤ maxExponent then
      let shift : Int := if negative then -e else e
      { s with exponent := s.exponent + shift }.toFloat?
    else if negative || s.digits == 0 then some 0
    else none

def toFloat? (n : Numeral) : Option Float :=
  n.magnitude?.map fun f => if n.negative then -f else f

/-- The number as an integer: no point, no exponent, and no negative zero. -/
def toInt? (n : Numeral) : Option Int :=
  if n.fraction.isEmpty && n.exponent.isNone then
    let value : Nat := n.whole.foldl (fun v d => v * 10 + d) 0
    -- The negative zero is left to the doubles.
    if n.negative then if value = 0 then none else some (-(value : Int)) else some value
  else none

end Numeral

def float? : Json → Option Float
  | number n => n.toFloat?
  | _ => none

def unsigned? : Json → Option Nat
  | number n => do
    let i ← n.toInt?
    if 0 ≤ i ∧ i < UInt64.size then some i.toNat else none
  | _ => none

def signed? : Json → Option Int
  | number n => do
    let i ← n.toInt?
    if Int32.minValue.toInt ≤ i ∧ i ≤ Int32.maxValue.toInt then some i else none
  | _ => none

def bool? : Json → Option Bool
  | bool b => some b
  | _ => none

/-- The name of an alternative without data: a string, or an object that gives the name null. -/
def unitName? : Json → Option String
  | string s => s
  | object [(name, null)] => name
  | _ => none

end Json

end LeastSquares
