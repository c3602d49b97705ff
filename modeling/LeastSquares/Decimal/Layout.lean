import LeastSquares.Decimal.Digits

/-!
# Layouts of numbers

How the digits of a double are set out as text. Numbers in messages are always positional;
numbers in listings and in JSON switch to an exponent when they are very large or very small.
-/
namespace LeastSquares

structure Layout where
  /-- Leading digits of this exponent or above are written with an exponent. -/
  large : Option Int
  /-- Leading digits below this exponent are written with an exponent. -/
  small : Option Int
  /-- Whether a whole number ends in `.0` when written positionally. -/
  wholeMark : Bool
  plus : String
  tie : Tie
  notANumber : String
  infinite : String
  minusInfinite : String

namespace Layout

def message : Layout where
  large := none
  small := none
  wholeMark := false
  plus := ""
  tie := .upward
  notANumber := "NaN"
  infinite := "inf"
  minusInfinite := "-inf"

def listing : Layout :=
  { message with large := some 16, small := some (-4), wholeMark := true }

/-- Numbers in JSON: positional from `1e-5` up to `1e16`; only finite numbers can be written. -/
def json : Layout where
  large := some 16
  small := some (-5)
  wholeMark := true
  plus := "+"
  tie := .toEven
  notANumber := "null"
  infinite := "null"
  minusInfinite := "null"

def zeros (n : Nat) : String :=
  "".pushn '0' n

/-- The first digit of `digits`, then a point and the other digits if there are any. -/
def pointAfterFirst (digits : String) : String :=
  let rest := (digits.drop 1).toString
  if rest.isEmpty then digits else (digits.take 1).toString ++ "." ++ rest

def exponentText (plus : String) (e : Int) : String :=
  if e < 0 then s!"e{e}" else s!"e{plus}{e}"

def positional (wholeMark : Bool) (digits : String) (exponent : Int) : String :=
  if 0 ≤ exponent then
    digits ++ zeros exponent.toNat ++ (if wholeMark then ".0" else "")
  else
    let fractional := (-exponent).toNat
    if digits.length ≤ fractional then
      "0." ++ zeros (fractional - digits.length) ++ digits
    else
      let whole := digits.length - fractional
      (digits.take whole).toString ++ "." ++ (digits.drop whole).toString

def decimal (f : Layout) (d : Decimal) : String :=
  let digits := toString d.digits
  -- The exponent of the first digit decides between the two ways to write a number.
  let lead := d.exponent + digits.length - 1
  let tooLarge := match f.large with
    | some bound => bound ≤ lead
    | none => false
  let tooSmall := match f.small with
    | some bound => lead < bound
    | none => false
  if tooLarge || tooSmall then pointAfterFirst digits ++ exponentText f.plus lead
  else positional f.wholeMark digits d.exponent

def text (f : Layout) (x : Float) : String :=
  let sign := if Binary.isNegative x then "-" else ""
  match Binary.ofFloat x with
  | .notANumber => f.notANumber
  | .infinite => if Binary.isNegative x then f.minusInfinite else f.infinite
  | .finite 0 _ => sign ++ (if f.wholeMark then "0.0" else "0")
  | .finite mantissa exponent => sign ++ f.decimal (.shortest f.tie mantissa exponent)

end Layout

/-- The text of a double with one digit before the point, `places` digits after it and an
exponent. -/
def scientific (places : Nat) (x : Float) : String :=
  let sign := if Binary.isNegative x then "-" else ""
  match Binary.ofFloat x with
  | .notANumber => "NaN"
  | .infinite => sign ++ "inf"
  | .finite 0 _ => sign ++ Layout.pointAfterFirst ("".pushn '0' (places + 1)) ++ "e0"
  | .finite mantissa exponent =>
    let d := Decimal.rounded places mantissa exponent
    sign ++ Layout.pointAfterFirst (toString d.digits)
      ++ Layout.exponentText "" (d.exponent + places)

end LeastSquares
