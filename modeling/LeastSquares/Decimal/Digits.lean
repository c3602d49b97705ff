import LeastSquares.Decimal.Binary

/-!
# Decimal digits of a double

Two ways to write a positive double in decimal: by the fewest digits that read back as the same
double, nearest to it among those, and by a fixed number of digits, rounded from its exact value.
-/
namespace LeastSquares

/-- The value `digits * 10 ^ exponent`. -/
structure Decimal where
  digits : Nat
  exponent : Int
  deriving DecidableEq, Repr

inductive Tie where
  | upward
  | toEven
  deriving DecidableEq, Repr

namespace Decimal

def powerOfTen (k : Nat) : Nat := Nat.pow 10 k

/-- `n * 2 ^ b * 10 ^ d` and its denominator, for exponents of either sign. -/
def fraction (n : Nat) (b d : Int) : Nat × Nat :=
  ((n * powerOfTen d.toNat) <<< b.toNat, powerOfTen (-d).toNat <<< (-b).toNat)

def roundQuotient (tie : Tie) (num den : Nat) : Nat :=
  let down := num / den
  let twice := 2 * (num % den)
  if twice < den then down
  else if den < twice then down + 1
  else match tie with
    | .upward => down + 1
    | .toEven => down + down % 2

/-- A power of ten above `mantissa * 2 ^ exponent`, and not far above. -/
def ceiling (mantissa : Nat) (exponent : Int) : Int :=
  (mantissa.log2 + exponent + 1) * 30103 / 100000 + 2

/-- The multiple of `10 ^ place` nearest to `mantissa * 2 ^ exponent` among those that read back
as the same double, if there is one. The bounds of the interval that reads back belong to it when
the mantissa is even. -/
def shortestAt (tie : Tie) (mantissa : Nat) (exponent place : Int) : Option Nat :=
  let (value, unit) := fraction (4 * mantissa) (exponent - 2) (-place)
  let step (quarters : Nat) : Nat := (fraction quarters (exponent - 2) (-place)).1
  let above := value + step 2
  -- Below a power of two the doubles are twice as dense.
  let below := value - step (if mantissa = 1 <<< 52 ∧ exponent > -1074 then 1 else 2)
  let inside (c : Nat) : Bool :=
    if mantissa % 2 = 0 then below ≤ c * unit && c * unit ≤ above
    else below < c * unit && c * unit < above
  let down := value / unit
  match inside down, inside (down + 1) with
  | true, true => some (roundQuotient tie value unit)
  | true, false => some down
  | false, true => some (down + 1)
  | false, false => none

def shortestFrom (tie : Tie) (mantissa : Nat) (exponent : Int) : Nat → Int → Decimal
  | 0, place => ⟨0, place⟩
  | more + 1, place =>
    match shortestAt tie mantissa exponent place with
    | some digits => ⟨digits, place⟩
    | none => shortestFrom tie mantissa exponent more (place - 1)

/-- The shortest decimal that reads back as the double `mantissa * 2 ^ exponent`. Seventeen digits
always suffice. -/
def shortest (tie : Tie) (mantissa : Nat) (exponent : Int) : Decimal :=
  shortestFrom tie mantissa exponent 24 (ceiling mantissa exponent)

/-- The exponent of the leading decimal digit, sought downwards from `place`. -/
def leadingPlace (mantissa : Nat) (exponent : Int) : Nat → Int → Int
  | 0, place => place
  | more + 1, place =>
    let (num, den) := fraction mantissa exponent (-place)
    if den ≤ num then place else leadingPlace mantissa exponent more (place - 1)

/-- The value `mantissa * 2 ^ exponent` rounded to `places + 1` digits, ties to even. -/
def rounded (places : Nat) (mantissa : Nat) (exponent : Int) : Decimal :=
  let lead := leadingPlace mantissa exponent 8 (ceiling mantissa exponent)
  let (num, den) := fraction mantissa exponent (places - lead)
  let digits := roundQuotient .toEven num den
  -- Rounding up may have carried into a further digit.
  if digits = powerOfTen (places + 1) then ⟨powerOfTen places, lead + 1 - places⟩
  else ⟨digits, lead - places⟩

end Decimal

end LeastSquares
