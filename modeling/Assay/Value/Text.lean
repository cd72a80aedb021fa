import Assay.Number.Shortest
import Assay.Text.Printable
import Assay.Value.Order

/-!
# Written values

How values are written in renderings and messages: texts and byte strings quoted, containers
bracketed, days and moments by their parts (`Value.written`), and the plainer form that texts,
days, moments and enumeration members have on their own (`Value.plainText`). How a schema or a
check is written is a parameter here, since that depends on its definition.
-/

namespace Assay

namespace Text

/-- The last `width` hexadecimal digits of a number, in lower case. -/
def hexDigits (width n : Nat) : List Char :=
  let ds := (Nat.toDigits 16 n).map Char.toLower
  List.replicate (width - ds.length) '0' ++ ds

/-- The quotation mark for a text: the double one when the text has single ones only. -/
def quoteFor (hasSingle hasDouble : Bool) : Char :=
  if hasSingle && !hasDouble then '"' else '\''

/-- A character inside quotation marks. -/
def escapedChar (quote c : Char) : List Char :=
  if c == quote || c == '\\' then ['\\', c]
  else if c == '\n' then ['\\', 'n']
  else if c == '\r' then ['\\', 'r']
  else if c == '\t' then ['\\', 't']
  else if isPrintable c then [c]
  else if c.toNat < 256 then '\\' :: 'x' :: hexDigits 2 c.toNat
  else if c.toNat < 65536 then '\\' :: 'u' :: hexDigits 4 c.toNat
  else '\\' :: 'U' :: hexDigits 8 c.toNat

/-- A text in quotation marks, with unprintable characters escaped. -/
def quoted (s : String) : String :=
  let cs := s.toList
  let q := quoteFor (cs.contains '\'') (cs.contains '"')
  String.ofList (q :: cs.flatMap (escapedChar q) ++ [q])

/-- A byte inside quotation marks. -/
def escapedByte (quote : Char) (b : UInt8) : List Char :=
  let c := Char.ofNat b.toNat
  if c == quote || c == '\\' then ['\\', c]
  else if c == '\n' then ['\\', 'n']
  else if c == '\r' then ['\\', 'r']
  else if c == '\t' then ['\\', 't']
  else if 32 ≤ b && b < 127 then [c]
  else '\\' :: 'x' :: hexDigits 2 b.toNat

/-- A byte string in quotation marks. -/
def quotedBytes (data : List UInt8) : String :=
  let q := quoteFor (data.contains 39) (data.contains 34)
  String.ofList ('b' :: q :: data.flatMap (escapedByte q) ++ [q])

end Text

/-- A day by its parts. -/
def Date.written (d : Date) : String :=
  "datetime.date(" ++ ", ".intercalate [toString d.year, toString d.month, toString d.day] ++ ")"

namespace Moment

/-- A span of time by its days, seconds and microseconds; only the days can be negative. -/
def spanWritten (micros : Int) : String :=
  let day := perDay
  let parts := [("days", micros.fdiv day), ("seconds", (micros.fmod day) / 1000000),
    ("microseconds", micros.fmod 1000000)].filter (·.2 != 0)
  let body := ", ".intercalate (parts.map fun p => p.1 ++ "=" ++ toString p.2)
  "datetime.timedelta(" ++ (if parts.isEmpty then "0" else body) ++ ")"

/-- An offset from universal time. -/
def offsetWritten (offset : Int) : String :=
  if offset = 0 then "datetime.timezone.utc"
  else "datetime.timezone(" ++ spanWritten offset ++ ")"

/-- A moment by its parts; seconds and microseconds that are zero at the end are left out. -/
def written (t : Moment) : String :=
  let base := [t.date.year, t.date.month, t.date.day, t.hour.val, t.minute.val]
  let parts :=
    if t.microsecond.val != 0 then base ++ [t.second.val, t.microsecond.val]
    else if t.second.val != 0 then base ++ [t.second.val]
    else base
  let zone := (t.offset.map fun o => ", tzinfo=" ++ offsetWritten o).getD ""
  "datetime.datetime(" ++ ", ".intercalate (parts.map toString) ++ zone ++ ")"

end Moment

/-- A class. Classes of opaque objects are local to their caller. -/
def ClassRef.written : ClassRef Value → String
  | .builtin t => "<class '" ++ t.name ++ "'>"
  | .object name => "<class '__main__." ++ name ++ "'>"
  | .enumeration c => "<enum '" ++ c.name ++ "'>"

namespace Value

/-- A truth value in words. -/
def boolText (b : Bool) : String :=
  if b then "True" else "False"

/-- Written items in round brackets; a single one is marked by a comma. -/
def tupleText : List String → String
  | [s] => "(" ++ s ++ ",)"
  | ss => "(" ++ ", ".intercalate ss ++ ")"

mutual

/-- A value written out, given how schemas and checks are written. -/
def writtenBy (node : Value → String) : Value → String
  | missing => "MISSING"
  | null => "None"
  | bool b => boolText b
  | int n => toString n
  | float x => x.toText
  | nan _ => "nan"
  | str s => Text.quoted s
  | bytes data isMutable =>
    if isMutable then "bytearray(" ++ Text.quotedBytes data ++ ")" else Text.quotedBytes data
  | date d => d.written
  | moment t => t.written
  | list vs => "[" ++ ", ".intercalate (allWrittenBy node vs) ++ "]"
  | tuple vs => tupleText (allWrittenBy node vs)
  | dict es => "\x7b" ++ ", ".intercalate (entriesWrittenBy node es) ++ "\x7d"
  | view es => "mappingproxy(\x7b" ++ ", ".intercalate (entriesWrittenBy node es) ++ "\x7d)"
  | set [] => "set()"
  | set vs => "\x7b" ++ ", ".intercalate (allWrittenBy node vs) ++ "\x7d"
  | frozenSet [] => "frozenset()"
  | frozenSet vs => "frozenset(\x7b" ++ ", ".intercalate (allWrittenBy node vs) ++ "\x7d)"
  | object _ name => "<" ++ name ++ ">"
  | cls c => c.written
  | member c name value => "<" ++ c.name ++ "." ++ name ++ ": " ++ writtenBy node value ++ ">"
  | pending .. => "<coroutine>"
  | callable f => "<function " ++ f.name ++ ">"
  | builtin _ => "<function>"
  | issue i => issueWrittenBy node i
  | check c => node (check c)
  | schema s => node (schema s)
termination_by structural x => x

/-- Every value of a list written out. -/
def allWrittenBy (node : Value → String) : List Value → List String
  | [] => []
  | v :: vs => writtenBy node v :: allWrittenBy node vs
termination_by structural x => x

/-- Every entry of a mapping written out. -/
def entriesWrittenBy (node : Value → String) : List (Value × Value) → List String
  | [] => []
  | (k, v) :: es => (writtenBy node k ++ ": " ++ writtenBy node v) :: entriesWrittenBy node es
termination_by structural x => x

/-- An issue written out, field by field. -/
def issueWrittenBy (node : Value → String) : Issue Value → String
  | ⟨path, message, input, _, detail⟩ =>
    let shared := ["path=" ++ tupleText (allWrittenBy node path),
      "message=" ++ writtenBy node message, "input=" ++ writtenBy node input]
    let own := (detailWrittenBy node detail).map fun field => field.1 ++ "=" ++ field.2
    detail.className ++ "(" ++ ", ".intercalate (shared ++ own) ++ ")"
termination_by structural x => x

/-- The fields of a detail by name. -/
def detailWrittenBy (node : Value → String) :
    Detail Value (Issue Value) → List (String × String)
  | .unspecified => []
  | .invalidType a b => [("expected", writtenBy node a), ("received", writtenBy node b)]
  | .tooBig a b c d =>
    [("origin", writtenBy node a), ("maximum", writtenBy node b),
      ("inclusive", writtenBy node c), ("exact", writtenBy node d)]
  | .tooSmall a b c d =>
    [("origin", writtenBy node a), ("minimum", writtenBy node b),
      ("inclusive", writtenBy node c), ("exact", writtenBy node d)]
  | .invalidFormat a b c d e =>
    [("format", writtenBy node a), ("pattern", writtenBy node b),
      ("prefix", writtenBy node c), ("suffix", writtenBy node d),
      ("includes", writtenBy node e)]
  | .notMultipleOf a => [("divisor", writtenBy node a)]
  | .unrecognizedKeys a => [("keys", writtenBy node a)]
  | .invalidUnion gs a b =>
    [("errors", tupleText (groupsWrittenBy node gs)), ("note", writtenBy node a),
      ("discriminator", writtenBy node b)]
  | .invalidKey a is =>
    [("origin", writtenBy node a), ("issues", tupleText (issuesWrittenBy node is))]
  | .invalidElement a k is =>
    [("origin", writtenBy node a), ("key", writtenBy node k),
      ("issues", tupleText (issuesWrittenBy node is))]
  | .invalidValue a => [("values", writtenBy node a)]
  | .custom a => [("params", writtenBy node a)]
termination_by structural x => x

/-- Every issue of a list written out. -/
def issuesWrittenBy (node : Value → String) : List (Issue Value) → List String
  | [] => []
  | i :: is => issueWrittenBy node i :: issuesWrittenBy node is
termination_by structural x => x

/-- Every group of issues written out. -/
def groupsWrittenBy (node : Value → String) : List (List (Issue Value)) → List String
  | [] => []
  | g :: gs => tupleText (issuesWrittenBy node g) :: groupsWrittenBy node gs
termination_by structural x => x

end

/-- A value as a text of its own, given how schemas and checks are written: texts stand without
quotation marks, days and moments in their calendar form, enumeration members by name, views
like the mappings that they show. -/
def textBy (node : Value → String) : Value → String
  | str s => s
  | view es => writtenBy node (dict es)
  | date d => d.toText
  | moment t => t.toText " "
  | member c name _ => c.name ++ "." ++ name
  | v => writtenBy node v

end Value

end Assay
