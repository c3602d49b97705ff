import LeastSquares.Json.Token

/-!
# JSON values

Values are built from tokens by a stack of the arrays and objects that are still open, so nesting
may go to any depth. Objects keep every member, repeated names included.
-/
namespace LeastSquares

inductive Json where
  | null
  | bool (b : Bool)
  | number (n : Json.Numeral)
  | string (s : Option String)
  | array (items : List Json)
  | object (members : List (Option String × Json))

namespace Json

/-- An array or object still open, its contents last to first. -/
inductive Frame where
  | array (items : List Json)
  /-- An object whose next value belongs to `name`. -/
  | object (members : List (Option String × Json)) (name : Option String)

inductive Expectation where
  | value
  /-- The first item of an array, or its end. -/
  | item
  /-- The first name in an object, or its end. -/
  | firstName (members : List (Option String × Json))
  | name (members : List (Option String × Json))
  | colon (members : List (Option String × Json)) (name : Option String)
  /-- A comma, or the end of what the value is part of. -/
  | separator (done : Json)

structure Reading where
  expected : Expectation
  frames : List Frame

namespace Reading

def begin (frames : List Frame) : Token → Option Reading
  | .null => some ⟨.separator .null, frames⟩
  | .bool b => some ⟨.separator (.bool b), frames⟩
  | .number n => some ⟨.separator (.number n), frames⟩
  | .string s => some ⟨.separator (.string s), frames⟩
  | .openArray => some ⟨.item, .array [] :: frames⟩
  | .openObject => some ⟨.firstName [], frames⟩
  | _ => none

def next (r : Reading) (t : Token) : Option Reading :=
  match r.expected, t, r.frames with
  | .value, t, frames => begin frames t
  -- An array may close at once, but not after a comma.
  | .item, .closeArray, .array items :: frames => some ⟨.separator (.array items.reverse), frames⟩
  | .item, t, frames => begin frames t
  | .firstName members, .closeObject, frames =>
    some ⟨.separator (.object members.reverse), frames⟩
  | .firstName members, .string s, frames => some ⟨.colon members s, frames⟩
  | .name members, .string s, frames => some ⟨.colon members s, frames⟩
  | .colon members name, .colon, frames => some ⟨.value, .object members name :: frames⟩
  | .separator done, .comma, .array items :: frames =>
    some ⟨.value, .array (done :: items) :: frames⟩
  | .separator done, .closeArray, .array items :: frames =>
    some ⟨.separator (.array (done :: items).reverse), frames⟩
  | .separator done, .comma, .object members name :: frames =>
    some ⟨.name ((name, done) :: members), frames⟩
  | .separator done, .closeObject, .object members name :: frames =>
    some ⟨.separator (.object ((name, done) :: members).reverse), frames⟩
  | _, _, _ => none

def value? (r : Reading) : Option Json :=
  match r.expected, r.frames with
  | .separator done, [] => some done
  | _, _ => none

end Reading

def parse? (text : String) : Option Json := do
  let tokens ← tokens? text
  let read ← tokens.foldlM Reading.next ⟨.value, []⟩
  read.value?

end Json

end LeastSquares
