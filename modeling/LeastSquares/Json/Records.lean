import LeastSquares.Json.Number
import LeastSquares.Config
import LeastSquares.Termination
import LeastSquares.Decimal.Layout

/-!
# Configurations and terminations as JSON

A configuration is written as an object with one line for each field. It is read from an object,
whose unknown members are passed over, or from an array of the fields in order; fields that are
missing keep their defaults, and a field given twice is refused. A termination is a string with its
name, or an object that gives the name of an abort its status. Any name may be given as an object
with null when it has no status.
-/
namespace LeastSquares

namespace Config

inductive Field where
  | ftol
  | xtol
  | gtol
  | maxfev
  | epsfcn
  | factor
  | scaling
  | calcCovariance
  deriving DecidableEq, Repr

namespace Field

/-- The fields in the order in which they are written. -/
def all : List Field := [ftol, xtol, gtol, maxfev, epsfcn, factor, scaling, calcCovariance]

def name : Field → String
  | ftol => "ftol"
  | xtol => "xtol"
  | gtol => "gtol"
  | maxfev => "maxfev"
  | epsfcn => "epsfcn"
  | factor => "factor"
  | scaling => "scaling"
  | calcCovariance => "calc_covariance"

def ofName? (name : String) : Option Field :=
  all.find? fun f => f.name == name

end Field

end Config

namespace Scaling

def name : Scaling → String
  | auto => "Auto"
  | explicit => "Explicit"

def ofName? (name : String) : Option Scaling :=
  if name == "Auto" then some auto else if name == "Explicit" then some explicit else none

end Scaling

namespace Config

def fieldText (c : Config Float) : Field → String
  | .ftol => Layout.json.text c.ftol
  | .xtol => Layout.json.text c.xtol
  | .gtol => Layout.json.text c.gtol
  | .maxfev => match c.maxfev with
    | some k => toString k
    | none => "null"
  | .epsfcn => Layout.json.text c.epsfcn
  | .factor => Layout.json.text c.factor
  | .scaling => "\"" ++ c.scaling.name ++ "\""
  | .calcCovariance => toString c.calcCovariance

/-- The configuration as JSON, indented by two blanks. -/
def toJson (c : Config Float) : String :=
  let line (f : Field) : String := "  \"" ++ f.name ++ "\": " ++ c.fieldText f
  "\x7b\n" ++ ",\n".intercalate (Field.all.map line) ++ "\n\x7d"

def readField (c : Config Float) (f : Field) (v : Json) : Option (Config Float) :=
  match f with
  | .ftol => v.float?.map fun x => { c with ftol := x }
  | .xtol => v.float?.map fun x => { c with xtol := x }
  | .gtol => v.float?.map fun x => { c with gtol := x }
  | .maxfev => match v with
    | .null => some { c with maxfev := none }
    | v => v.unsigned?.map fun k => { c with maxfev := some k }
  | .epsfcn => v.float?.map fun x => { c with epsfcn := x }
  | .factor => v.float?.map fun x => { c with factor := x }
  | .scaling => (v.unitName?.bind Scaling.ofName?).map fun s => { c with scaling := s }
  | .calcCovariance => v.bool?.map fun b => { c with calcCovariance := b }

/-- Set the fields an object gives, those in `seen` not again. -/
def readMembers (c : Config Float) (seen : List Field) :
    List (Option String × Json) → Option (Config Float)
  | [] => some c
  -- A name that is not well formed is refused even where it would be passed over.
  | (none, _) :: _ => none
  | (some name, v) :: rest =>
    match Field.ofName? name with
    -- Unknown members are passed over.
    | none => readMembers c seen rest
    | some f =>
      if f ∈ seen then none
      else match c.readField f v with
        | some c => readMembers c (f :: seen) rest
        | none => none

/-- Set fields in order, as far as there are values. More values than fields are refused. -/
def readItems (c : Config Float) : List Field → List Json → Option (Config Float)
  | _, [] => some c
  | [], _ :: _ => none
  | f :: fields, v :: rest =>
    match c.readField f v with
    | some c => readItems c fields rest
    | none => none

def ofJson? (text : String) : Option (Config Float) :=
  match Json.parse? text with
  | some (.object members) => readMembers .default [] members
  | some (.array items) => readItems .default Field.all items
  | _ => none

def ofJson (text : String) : Except (Error Float) (Config Float) :=
  match ofJson? text with
  | some c => .ok c
  | none => .error .malformedJson

end Config

namespace Termination

def toJson (t : Termination) : String :=
  match t.unitName? with
  | some name => "\"" ++ name ++ "\""
  | none => "\x7b\"UserAbort\":" ++ toString t.code ++ "\x7d"

def ofJson? (text : String) : Option Termination := do
  match ← Json.parse? text with
  | .object [(some "UserAbort", status)] => status.signed?.map userAbort
  | v => v.unitName? >>= ofUnitName?

end Termination

end LeastSquares
