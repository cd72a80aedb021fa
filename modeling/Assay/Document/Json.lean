import Assay.Number.Numeral
import Assay.Schema.Fault

/-!
# Reading JSON documents

A JSON text becomes a value (`JsonText.read`). Objects become mappings in which a later entry of
a name replaces the value of an earlier one; numbers without a point or exponent are integers;
the words for NaN and the infinities are admitted. A text that is not JSON is refused with what
was expected and where (`JsonText.Flaw`).
-/

namespace Assay.JsonText

open Text

/-- What is wrong with a text at some place. -/
inductive Problem
  | valueMissing
  | nameMissing
  | colonMissing
  | commaMissing
  | textOpen
  | controlCharacter
  | escapeUnknown
  | escapeIncomplete
  | furtherText
  | byteOrderMark
  deriving DecidableEq, Inhabited

/-- The wording of a problem. -/
def Problem.message : Problem → String
  | valueMissing => "Expecting value"
  | nameMissing => "Expecting property name enclosed in double quotes"
  | colonMissing => "Expecting ':' delimiter"
  | commaMissing => "Expecting ',' delimiter"
  | textOpen => "Unterminated string starting at"
  | controlCharacter => "Invalid control character at"
  | escapeUnknown => "Invalid \\escape"
  | escapeIncomplete => "Invalid \\uXXXX escape"
  | furtherText => "Extra data"
  | byteOrderMark => "Unexpected UTF-8 BOM (decode using utf-8-sig)"

/-- A reason for which a text is not read. -/
inductive Flaw
  | malformed (problem : Problem) (place : Nat)
  /-- An integer has more digits than are read. -/
  | tooLong
  deriving DecidableEq, Inhabited

/-- The line of a place in a text and the column in it, both counted from one. -/
def lineAndColumn (cs : List Char) (place : Nat) : Nat × Nat :=
  let before := cs.take place
  (before.count '\n' + 1, (before.reverse.takeWhile (· != '\n')).length + 1)

/-- A problem with its place in a text. -/
def explain (cs : List Char) (problem : Problem) (place : Nat) : String :=
  let (line, column) := lineAndColumn cs place
  problem.message ++ ": line " ++ toString line ++ " column " ++ toString column
    ++ " (char " ++ toString place ++ ")"

/-- What is left of a text, and its place. -/
structure Cursor where
  rest : List Char
  place : Nat
  deriving Inhabited

/-- Reading a part of a text. -/
abbrev Reader (α : Type) := Cursor → Except Flaw (α × Cursor)

namespace Cursor

/-- Go on by a number of characters. -/
def advance (c : Cursor) (n : Nat) : Cursor := ⟨c.rest.drop n, c.place + n⟩

/-- The characters that may stand between the parts of a text. -/
def isGap (ch : Char) : Bool := ch == ' ' || ch == '\t' || ch == '\n' || ch == '\r'

/-- Go on past white space. -/
def pastGap (c : Cursor) : Cursor := c.advance (c.rest.takeWhile isGap).length

/-- Refuse the text here. -/
def refuse {α : Type} (c : Cursor) (problem : Problem) : Except Flaw α :=
  .error (.malformed problem c.place)

end Cursor

/-! ## Texts -/

/-- The value of a hexadecimal digit. -/
def hexDigit? (c : Char) : Option Nat :=
  if '0' ≤ c && c ≤ '9' then some (c.toNat - '0'.toNat)
  else if 'a' ≤ c && c ≤ 'f' then some (c.toNat - 'a'.toNat + 10)
  else if 'A' ≤ c && c ≤ 'F' then some (c.toNat - 'A'.toNat + 10)
  else none

/-- The number that four hexadecimal digits write, and what follows them. Something has to. -/
def unit? : List Char → Option (Nat × List Char)
  | a :: b :: c :: d :: e :: rest => do
    let n := (((← hexDigit? a) * 16 + (← hexDigit? b)) * 16 + (← hexDigit? c)) * 16
    return (n + (← hexDigit? d), e :: rest)
  | _ => none

/-- The character of a short escape. -/
def shortEscape? : Char → Option Char
  | '"' => some '"'
  | '\\' => some '\\'
  | '/' => some '/'
  | 'b' => some '\x08'
  | 'f' => some '\x0c'
  | 'n' => some '\n'
  | 'r' => some '\r'
  | 't' => some '\t'
  | _ => none

/-- The number is the first half of a pair. -/
def isHighHalf (n : Nat) : Bool := 0xD800 ≤ n && n < 0xDC00

/-- The number is the second half of a pair. -/
def isLowHalf (n : Nat) : Bool := 0xDC00 ≤ n && n < 0xE000

/-- A character by its number; halves that are not in a pair have no character. -/
def charOf (n : Nat) : Char :=
  if isHighHalf n || isLowHalf n then '\ufffd' else Char.ofNat n

/-- A character escaped by its number, from the digits on. A pair of halves is one character. -/
def numbered (c : Cursor) : Except Flaw (Char × Cursor) :=
  match unit? c.rest with
  | none => .error (.malformed .escapeIncomplete (c.place - 1))
  | some (high, rest) =>
    let single := (charOf high, ⟨rest, c.place + 4⟩)
    match rest with
    | '\\' :: 'u' :: pair =>
      if !isHighHalf high || pair.length < 5 then .ok single
      else match unit? pair with
        | none => .error (.malformed .escapeIncomplete (c.place + 5))
        | some (low, after) =>
          if isLowHalf low then
            .ok (Char.ofNat (0x10000 + (high - 0xD800) * 1024 + (low - 0xDC00)),
              ⟨after, c.place + 10⟩)
          else .ok single
    | _ => .ok single

/-- The characters of a text up to its closing quotation mark, at most `fuel` of them, after
those that were read already. The text starts at `start`. -/
def characters (start : Nat) : Nat → List Char → Reader String
  | 0, _, _ => .error (.malformed .textOpen start)
  | fuel + 1, found, c =>
    match c.rest with
    | [] => .error (.malformed .textOpen start)
    | '"' :: _ => .ok (String.ofList found.reverse, c.advance 1)
    | ['\\'] => .error (.malformed .textOpen start)
    | '\\' :: 'u' :: _ => do
      let (ch, next) ← numbered (c.advance 2)
      characters start fuel (ch :: found) next
    | '\\' :: e :: _ =>
      match shortEscape? e with
      | some ch => characters start fuel (ch :: found) (c.advance 2)
      | none => c.refuse .escapeUnknown
    | ch :: _ =>
      if ch.toNat < 0x20 then c.refuse .controlCharacter
      else characters start fuel (ch :: found) (c.advance 1)

/-- A text, from the character after its opening quotation mark on. -/
def text : Reader String := fun c => characters (c.place - 1) (c.rest.length + 1) [] c

/-! ## Numbers -/

/-- The digits of a fraction with its point, if there is one. -/
def fractionOf : List Char → List Char
  | '.' :: cs =>
    let digits := cs.takeWhile isAsciiDigit
    if digits.isEmpty then [] else '.' :: digits
  | _ => []

/-- An exponent, if there is one. -/
def exponentOf : List Char → List Char
  | e :: cs =>
    if e == 'e' || e == 'E' then
      let mark := match cs with
        | '-' :: _ => ['-']
        | '+' :: _ => ['+']
        | _ => []
      let digits := (cs.drop mark.length).takeWhile isAsciiDigit
      if digits.isEmpty then [] else e :: mark ++ digits
    else []
  | [] => []

/-- The whole part of a number: a zero, or digits that do not start with one. -/
def wholeOf : List Char → List Char
  | '0' :: _ => ['0']
  | cs => cs.takeWhile isAsciiDigit

/-- An integer of more digits than this is not read. -/
def maxDigits : Nat := 4300

/-- The value of a float by its reading. -/
def floatOf (reading : Option Numeral.Reading) : Value :=
  match reading with
  | some (.decimal negative digits exponent) =>
    .float (Binary64.ofDecimal negative digits exponent)
  | some (.infinity negative) => .float (.infinite negative)
  | _ => .nan 0

/-- A number. -/
def number : Reader Value := fun c =>
  let mark := if c.rest.head? == some '-' then ['-'] else []
  let unsigned := c.rest.drop mark.length
  let whole := wholeOf unsigned
  if whole.isEmpty then c.refuse .valueMissing
  else
    let afterWhole := unsigned.drop whole.length
    let fraction := fractionOf afterWhole
    let exponent := exponentOf (afterWhole.drop fraction.length)
    let all := mark ++ whole ++ fraction ++ exponent
    let next := c.advance all.length
    if fraction.isEmpty && exponent.isEmpty then
      if maxDigits < whole.length then .error .tooLong
      else
        let n : Int := natOfDigits whole
        .ok (.int (if mark.isEmpty then n else -n), next)
    else .ok (floatOf (Numeral.floatReading? (String.ofList all)), next)

/-! ## Values -/

/-- The values that are written as words. -/
def words : List (String × Value) :=
  [("null", .null), ("true", .bool true), ("false", .bool false), ("NaN", .nan 0),
    ("Infinity", .float (.infinite false)), ("-Infinity", .float (.infinite true))]

/-- A word or a number. -/
def wordOrNumber : Reader Value := fun c =>
  match words.find? fun w => w.1.toList.isPrefixOf c.rest with
  | some (w, v) => .ok (v, c.advance w.length)
  | none => number c

mutual

/-- A value. Each part takes `fuel`, of which twice the length of the text is enough. -/
def value : Nat → Reader Value
  | 0, c => c.refuse .valueMissing
  | fuel + 1, c =>
    match c.rest with
    | '"' :: _ => do
      let (s, next) ← text (c.advance 1)
      return (.str s, next)
    | '\x7b' :: _ =>
      let inside := (c.advance 1).pastGap
      if inside.rest.head? == some '\x7d' then .ok (.dict [], inside.advance 1)
      else entries fuel [] inside
    | '[' :: _ =>
      let inside := (c.advance 1).pastGap
      if inside.rest.head? == some ']' then .ok (.list [], inside.advance 1)
      else elements fuel [] inside
    | _ => wordOrNumber c

/-- The elements of an array up to its closing bracket, after those that were read already. -/
def elements : Nat → List Value → Reader Value
  | 0, _, c => c.refuse .valueMissing
  | fuel + 1, found, c => do
    let (v, next) ← value fuel c
    let next := next.pastGap
    match next.rest with
    | ']' :: _ => return (.list (v :: found).reverse, next.advance 1)
    | ',' :: _ => elements fuel (v :: found) (next.advance 1).pastGap
    | _ => next.refuse .commaMissing

/-- The entries of an object up to its closing brace, after those that were read already. -/
def entries : Nat → Entries → Reader Value
  | 0, _, c => c.refuse .nameMissing
  | fuel + 1, found, c => do
    if c.rest.head? != some '"' then c.refuse .nameMissing
    else
      let (name, next) ← text (c.advance 1)
      let next := next.pastGap
      if next.rest.head? != some ':' then next.refuse .colonMissing
      else
        let (v, next) ← value fuel (next.advance 1).pastGap
        let next := next.pastGap
        let found := (Value.str name, v) :: found
        match next.rest with
        | '\x7d' :: _ => return (.dict (Entries.ofList found.reverse), next.advance 1)
        | ',' :: _ => entries fuel found (next.advance 1).pastGap
        | _ => next.refuse .commaMissing

end

/-- The value of a whole text. -/
def read (s : String) : Except Flaw Value := do
  let start : Cursor := ⟨s.toList, 0⟩
  if start.rest.head? == some '\ufeff' then start.refuse .byteOrderMark
  else
    let (v, next) ← value (2 * start.rest.length + 2) start.pastGap
    let next := next.pastGap
    if next.rest.isEmpty then return v else next.refuse .furtherText

end Assay.JsonText
