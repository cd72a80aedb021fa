import Assay.Message.Path

/-!
# Plain data as JSON

Plain data written as JSON text in ASCII, each item and entry on a line of its own, nested ones
two columns further right (`Value.toJson`).
-/

namespace Assay.Value

/-- A new line at a depth of nesting. -/
def jsonBreak (depth : Nat) : String :=
  String.ofList ('\n' :: List.replicate (2 * depth) ' ')

/-- Written parts between brackets, each on a line of its own. -/
def jsonBlock (opening closing : String) (depth : Nat) : List String → String
  | [] => opening ++ closing
  | parts =>
    opening ++ jsonBreak (depth + 1) ++ (("," ++ jsonBreak (depth + 1)).intercalate parts)
      ++ jsonBreak depth ++ closing

mutual

/-- Plain data at a depth of nesting. What is not plain data is written as a text. -/
def jsonAt (depth : Nat) : Value → String
  | null => "null"
  | bool b => if b then "true" else "false"
  | int n => toString n
  | float x => if x.isFinite then x.toText else if x.isNegative then "-Infinity" else "Infinity"
  | nan _ => "NaN"
  | str s => Text.asciiQuoted s
  | list vs => jsonBlock "[" "]" depth (jsonItems (depth + 1) vs)
  | dict es => jsonBlock "\x7b" "\x7d" depth (jsonEntries (depth + 1) es)
  | v => Text.asciiQuoted (fallbackText v)
termination_by structural x => x

/-- Every item at a depth of nesting. -/
def jsonItems (depth : Nat) : List Value → List String
  | [] => []
  | v :: vs => jsonAt depth v :: jsonItems depth vs
termination_by structural x => x

/-- Every entry at a depth of nesting. -/
def jsonEntries (depth : Nat) : List (Value × Value) → List String
  | [] => []
  | (k, v) :: es =>
    (Text.asciiQuoted ((str? k).getD "") ++ ": " ++ jsonAt depth v) :: jsonEntries depth es
termination_by structural x => x

end

/-- Plain data as JSON text. -/
def toJson (v : Value) : String := jsonAt 0 v

end Assay.Value
