import Assay.Schema.Definition

/-!
# Rendered paths

A path is written as a place in a nested value: positions in square brackets, names that are
plain words after a point, and every other name quoted in square brackets.
-/

namespace Assay

namespace Text

/-- A plain word: a letter or underscore, then letters, digits and underscores, all ASCII. -/
def isWord (cs : List Char) : Bool :=
  match cs with
  | [] => false
  | c :: rest =>
    (c.isAlpha || c == '_') && rest.all fun d => d.isAlphanum || d == '_'

/-- Four hexadecimal digits of a UTF-16 unit. -/
def unitEscape (n : Nat) : List Char :=
  '\\' :: 'u' :: hexDigits 4 n

/-- A character inside double quotation marks, in ASCII: what is beyond ASCII is escaped in
UTF-16 units. -/
def asciiEscaped (c : Char) : List Char :=
  if c == '"' then ['\\', '"']
  else if c == '\\' then ['\\', '\\']
  else if c == '\n' then ['\\', 'n']
  else if c == '\r' then ['\\', 'r']
  else if c == '\t' then ['\\', 't']
  else if c == '\x08' then ['\\', 'b']
  else if c == '\x0c' then ['\\', 'f']
  else if 32 ≤ c.toNat && c.toNat < 127 then [c]
  else if c.toNat < 65536 then unitEscape c.toNat
  else
    let n := c.toNat - 65536
    unitEscape (55296 + n / 1024) ++ unitEscape (56320 + n % 1024)

/-- A text in double quotation marks, in ASCII. -/
def asciiQuoted (s : String) : String :=
  String.ofList ('"' :: s.toList.flatMap asciiEscaped ++ ['"'])

end Text

namespace Path

/-- The position that a key is. -/
def position? : Value → Option Int
  | .int n => some n
  | .bool b => some b.toInt
  | _ => none

/-- One key of a path, first or not. Only positions and texts can be keys. -/
def keyText? (isFirst : Bool) (key : Value) : Option String :=
  match key with
  | .int _ | .bool _ => some ("[" ++ key.text ++ "]")
  | .str s =>
    if Text.isWord s.toList then some (if isFirst then s else "." ++ s)
    else some ("[" ++ Text.asciiQuoted s ++ "]")
  | _ => none

/-- The keys of a path one after the other. -/
def textFrom? (isFirst : Bool) : List Value → Option String
  | [] => some ""
  | k :: ks => do return (← keyText? isFirst k) ++ (← textFrom? false ks)

/-- A path as a place in a nested value. -/
def text? (path : List Value) : Option String :=
  textFrom? true path

end Path

end Assay
