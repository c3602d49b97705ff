/-!
# JSON tokens

A text is cut into tokens by the rules of RFC 8259: nothing but blanks may stand between tokens,
numbers have no needless zeros, and strings no bare control characters. A string may escape half
of a surrogate pair, in which case it has no characters to speak of.
-/
namespace LeastSquares

namespace Json

structure Numeral where
  negative : Bool
  whole : List Nat
  /-- The digits after the point, empty if there is no point. -/
  fraction : List Nat
  /-- The sign and the digits of the exponent, if there is one. -/
  exponent : Option (Bool × List Nat)
  deriving DecidableEq, Repr

inductive Token where
  | openObject
  | closeObject
  | openArray
  | closeArray
  | comma
  | colon
  | null
  | bool (b : Bool)
  | number (n : Numeral)
  /-- A string, if its characters are well formed. -/
  | string (s : Option String)
  deriving DecidableEq, Repr

def isBlank (c : Char) : Bool :=
  c = ' ' || c = '\t' || c = '\n' || c = '\r'

def digit? (c : Char) : Option Nat :=
  if c.isDigit then some (c.toNat - '0'.toNat) else none

def hexDigit? (c : Char) : Option Nat :=
  if c.isDigit then some (c.toNat - '0'.toNat)
  else if 'a' ≤ c && c ≤ 'f' then some (c.toNat - 'a'.toNat + 10)
  else if 'A' ≤ c && c ≤ 'F' then some (c.toNat - 'A'.toNat + 10)
  else none

/-- The digits at the head of a text, and the rest. -/
def spanDigits (cs : List Char) : List Nat × List Char :=
  (cs.takeWhile Char.isDigit |>.filterMap digit?, cs.dropWhile Char.isDigit)

def someDigits? (cs : List Char) : Option (List Nat × List Char) :=
  match spanDigits cs with
  | ([], _) => none
  | found => some found

/-- The digits before the point: a zero alone, or digits that do not start with one. -/
def whole? (cs : List Char) : Option (List Nat × List Char) :=
  match someDigits? cs with
  -- A needless zero in front.
  | some (0 :: _ :: _, _) => none
  | found => found

def fraction? : List Char → Option (List Nat × List Char)
  | '.' :: cs => someDigits? cs
  | cs => some ([], cs)

def exponent? : List Char → Option (Option (Bool × List Nat) × List Char)
  | c :: cs =>
    if c = 'e' || c = 'E' then
      let (negative, cs) := match cs with
        | '-' :: cs => (true, cs)
        | '+' :: cs => (false, cs)
        | cs => (false, cs)
      (someDigits? cs).map fun (digits, rest) => (some (negative, digits), rest)
    else some (none, c :: cs)
  | [] => some (none, [])

def numeral? (cs : List Char) : Option (Numeral × List Char) := do
  let (negative, cs) := match cs with
    | '-' :: cs => (true, cs)
    | cs => (false, cs)
  let (whole, cs) ← whole? cs
  let (fraction, cs) ← fraction? cs
  let (exponent, cs) ← exponent? cs
  return (⟨negative, whole, fraction, exponent⟩, cs)

def escape? : Char → Option Char
  | '"' => some '"'
  | '\\' => some '\\'
  | '/' => some '/'
  | 'b' => some '\x08'
  | 'f' => some '\x0c'
  | 'n' => some '\n'
  | 'r' => some '\r'
  | 't' => some '\t'
  | _ => none

def hexQuad? (a b c d : Char) : Option Nat := do
  return (((← hexDigit? a) * 16 + (← hexDigit? b)) * 16 + (← hexDigit? c)) * 16 + (← hexDigit? d)

/-- The code units of a string up to its closing quote, last to first, and the rest of the text. -/
def stringUnits? (units : List Nat) : List Char → Option (List Nat × List Char)
  | '"' :: cs => some (units, cs)
  | '\\' :: 'u' :: a :: b :: c :: d :: cs =>
    match hexQuad? a b c d with
    | some unit => stringUnits? (unit :: units) cs
    | none => none
  | '\\' :: e :: cs =>
    match escape? e with
    | some c => stringUnits? (c.toNat :: units) cs
    | none => none
  | c :: cs => if c.toNat < 0x20 then none else stringUnits? (c.toNat :: units) cs
  | [] => none

def isHighSurrogate (unit : Nat) : Bool := 0xD800 ≤ unit && unit < 0xDC00

def isLowSurrogate (unit : Nat) : Bool := 0xDC00 ≤ unit && unit < 0xE000

/-- The characters of code units, if every surrogate is half of a pair. -/
def characters? (done : List Char) : List Nat → Option (List Char)
  | high :: low :: units =>
    if isHighSurrogate high then
      if isLowSurrogate low then
        characters? (Char.ofNat (0x10000 + (high - 0xD800) * 0x400 + (low - 0xDC00)) :: done) units
      else none
    -- A low surrogate without the high one before it.
    else if isLowSurrogate high then none
    else characters? (Char.ofNat high :: done) (low :: units)
  | [unit] =>
    if isHighSurrogate unit || isLowSurrogate unit then none
    else some (Char.ofNat unit :: done).reverse
  | [] => some done.reverse

/-- The token at the head of a text that does not start with a blank. -/
def token? : List Char → Option (Token × List Char)
  | '\x7b' :: cs => some (.openObject, cs)
  | '\x7d' :: cs => some (.closeObject, cs)
  | '[' :: cs => some (.openArray, cs)
  | ']' :: cs => some (.closeArray, cs)
  | ',' :: cs => some (.comma, cs)
  | ':' :: cs => some (.colon, cs)
  | 'n' :: 'u' :: 'l' :: 'l' :: cs => some (.null, cs)
  | 't' :: 'r' :: 'u' :: 'e' :: cs => some (.bool true, cs)
  | 'f' :: 'a' :: 'l' :: 's' :: 'e' :: cs => some (.bool false, cs)
  | '"' :: cs =>
    (stringUnits? [] cs).map fun (units, rest) =>
      (.string ((characters? [] units.reverse).map String.ofList), rest)
  | cs => (numeral? cs).map fun (n, rest) => (.number n, rest)

/-- Cut at most the given number of tokens off a text. -/
def tokensUpTo (done : List Token) : Nat → List Char → Option (List Token)
  | more, cs =>
    match more, cs.dropWhile isBlank with
    | _, [] => some done.reverse
    | 0, _ => none
    | more + 1, cs =>
      match token? cs with
      | some (t, rest) => tokensUpTo (t :: done) more rest
      | none => none

/-- The tokens of a text. There are at most as many as it has characters. -/
def tokens? (text : String) : Option (List Token) :=
  tokensUpTo [] text.toList.length text.toList

end Json

end LeastSquares
