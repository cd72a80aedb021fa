import Assay.Calendar.Iso
import Assay.Number.Shortest
import Assay.Function.Class
import Assay.Schema.Construct

/-!
# Evaluating scalars

Each scalar schema tests the type of a value, or looks for it among listed ones, and reports
one issue when it does not fit. A coercing schema first converts the value where that is
possible.
-/

namespace Assay

/-- A result with one issue about a value, reported by a schema. -/
def Result.failed (s : Schema Value) (v : Value) (detail : Detail Value (Issue Value)) : Result :=
  ⟨v, [⟨[], .null, v, .schema s, detail⟩]⟩

/-- A result for a value of another type than expected. -/
def Result.wrongType (s : Schema Value) (v : Value) (expected : String) : Result :=
  .failed s v (.invalidType (.str expected) (.str v.describedType))

namespace Scalar

/-- A value as a text, unless it is absent or null. -/
def coerceString : Value → Value
  | .missing => .missing
  | .null => .null
  | v => .str v.text

/-- The number that a text writes; a whole one without a point is an integer. -/
def numberOf? (s : String) : Option Value :=
  match Numeral.floatReading? s with
  | none => none
  | some (.decimal negative digits exponent) =>
    let x := Binary64.ofDecimal negative digits exponent
    some (if x.isInteger && !s.contains '.' then .int x.toInt else .float x)
  | some (.infinity negative) => some (.float (.infinite negative))
  | some _ => some (.nan 0)

/-- A text or truth value as a number; nothing when the text is no numeral. -/
def coerceNumber : Value → Option Value
  | .str s => numberOf? s
  | .bool b => some (.int b.toInt)
  | v => some v

/-- A value as a truth value, unless it is absent. -/
def coerceBoolean : Value → Value
  | .missing => .missing
  | v => .bool v.truthy

/-- A text as a moment, if it has a time part, or else as a day; nothing when it is neither. -/
def coerceDate : Value → Option Value
  | .str s =>
    if s.contains 'T' || s.contains ' ' then (Moment.ofIso? s).map .moment
    else (Date.ofIso? s).map .date
  | v => some v

/-- The value is a day or a moment. -/
def isDate : Value → Bool
  | .date _ | .moment _ => true
  | _ => false

/-- A value that passes a test of its type. -/
def require (test : Value → Bool) (expected : String) (s : Schema Value) (v : Value) : Result :=
  if test v then ⟨v, []⟩ else .wrongType s v expected

/-- Evaluate a string schema. -/
def string (s : Schema Value) (coerce : Bool) (v : Value) : Result :=
  require (·.str?.isSome) "string" s (if coerce then coerceString v else v)

/-- Evaluate a number schema. -/
def number (s : Schema Value) (coerce : Bool) (v : Value) : Result :=
  match if coerce then coerceNumber v else some v with
  | some w => require Value.isNumber "number" s w
  | none => .wrongType s v "number"

/-- Evaluate a boolean schema. -/
def boolean (s : Schema Value) (coerce : Bool) (v : Value) : Result :=
  require (fun w => w matches .bool _) "boolean" s (if coerce then coerceBoolean v else v)

/-- Evaluate a date schema. -/
def date (s : Schema Value) (coerce : Bool) (v : Value) : Result :=
  match if coerce then coerceDate v else some v with
  | some w => require isDate "date" s w
  | none => .wrongType s v "date"

/-- Evaluate a schema of literal values. -/
def literal (s : Schema Value) (values : List Value) (v : Value) : Result :=
  if values.any v.same then ⟨v, []⟩ else .failed s v (.invalidValue (.tuple values))

/-- The member of a class that a value is or stands for. -/
def memberOf? (c : EnumClass Value) (v : Value) : Option Value :=
  match v with
  | .member d .. =>
    if d.ref == c.ref then some v
    else (c.members.find? fun m => m.2.same v).map fun m => .member c m.1 m.2
  | v => (c.members.find? fun m => m.2.same v).map fun m => .member c m.1 m.2

/-- Evaluate a schema of enumerated values. With a class, its members and their values are
accepted and the outcome is the member. -/
def enumeration (s : Schema Value) (entries : List (Value × Value))
    (cls : Option (EnumClass Value)) (v : Value) : Result :=
  let failed := Result.failed s v (.invalidValue (.tuple (entries.map (·.2))))
  match cls with
  | some c =>
    match memberOf? c v with
    | some m => ⟨m, []⟩
    | none => failed
  | none => if (entries.map (·.2)).any v.same then ⟨v, []⟩ else failed

end Scalar

end Assay
