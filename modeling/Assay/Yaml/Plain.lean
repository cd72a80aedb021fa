import Assay.Text.Digit

/-!
# What plain scalars mean

A plain scalar is not always a text: its form may make it a truth value, an integer, a float, a
null or a time (`Plain.tagOf`). Integers and floats may also be written in base sixty, with
colons between the places.
-/

namespace Assay.Yaml

/-- The tags of the kinds of nodes that every reader knows. -/
inductive Tag
  | text
  | null
  | truth
  | integer
  | float
  | time
  | sequence
  | mapping
  /-- The key that merges other mappings. -/
  | merge
  /-- The key that stands for a default value. -/
  | standIn
  | other
  deriving DecidableEq, Inhabited

/-- The tag of a name written in full. -/
def Tag.ofName (name : String) : Tag :=
  match name.toList with
  | cs =>
    if !"tag:yaml.org,2002:".toList.isPrefixOf cs then other
    else match String.ofList (cs.drop 18) with
      | "str" => text
      | "null" => null
      | "bool" => truth
      | "int" => integer
      | "float" => float
      | "timestamp" => time
      | "seq" => sequence
      | "map" => mapping
      | "merge" => merge
      | "value" => standIn
      | _ => other

namespace Plain

open Text

/-- The words for truth values, and what they mean. -/
def truthWords : List (String × Bool) :=
  [("yes", true), ("true", true), ("on", true), ("no", false), ("false", false), ("off", false)]

/-- The word in lower case, with a capital, or in capitals. -/
def spellings (word : String) : List String :=
  [word, word.capitalize, String.ofList (word.toList.map Char.toUpper)]

/-- The truth value that a word means. -/
def truth? (s : String) : Option Bool :=
  (truthWords.find? fun w => (spellings w.1).contains s).map (·.2)

/-- The text is a word for null. -/
def isNull (s : String) : Bool := s == "" || s == "~" || (spellings "null").contains s

/-- The character is a digit or an underscore. -/
def isLooseDigit (c : Char) : Bool := isAsciiDigit c || c == '_'

/-- What follows a sign, if there is one. -/
def unsigned : List Char → List Char
  | '-' :: cs | '+' :: cs => cs
  | cs => cs

/-- Digits that start with a digit, perhaps with underscores. -/
def isLooseNumber : List Char → Bool
  | [] => false
  | c :: cs => isAsciiDigit c && cs.all isLooseDigit

/-- The parts between colons. -/
def places (cs : List Char) : List (List Char) :=
  cs.splitOnP (· == ':')

/-- A place after the first in base sixty. -/
def isLowPlace : List Char → Bool
  | [c] => isAsciiDigit c
  | [b, c] => '0' ≤ b && b ≤ '5' && isAsciiDigit c
  | _ => false

/-- The characters are an integer. -/
def isInteger (cs : List Char) : Bool :=
  match unsigned cs with
  | ['0'] => true
  | '0' :: 'b' :: ds => !ds.isEmpty && ds.all fun c => c == '0' || c == '1' || c == '_'
  | '0' :: 'x' :: ds =>
    !ds.isEmpty && ds.all fun c =>
      isLooseDigit c || ('a' ≤ c && c ≤ 'f') || ('A' ≤ c && c ≤ 'F')
  | '0' :: ds => ds.all fun c => ('0' ≤ c && c ≤ '7') || c == '_'
  | ds =>
    match places ds with
    | [] => false
    | first :: rest => isLooseNumber first && rest.all isLowPlace

/-- The characters are an exponent, which needs a sign, or nothing. -/
def isExponent : List Char → Bool
  | [] => true
  | e :: m :: ds =>
    (e == 'e' || e == 'E') && (m == '-' || m == '+') && !ds.isEmpty && ds.all isAsciiDigit
  | _ => false

/-- The part before the first point, and what follows it. -/
def atPoint (cs : List Char) : Option (List Char × List Char) :=
  match cs.dropWhile (· != '.') with
  | [] => none
  | _ :: after => some (cs.takeWhile (· != '.'), after)

/-- The characters are a float, which needs a point. -/
def isFloat (cs : List Char) : Bool :=
  let word := String.ofList (unsigned cs)
  if word == ".inf" || word == ".Inf" || word == ".INF" then true
  else if [".nan", ".NaN", ".NAN"].contains (String.ofList cs) then true
  else match atPoint (unsigned cs) with
    | none => false
    | some (whole, after) =>
      let tail := after.dropWhile isLooseDigit
      if whole.isEmpty then
        (unsigned cs).length == cs.length && isLooseNumber (after.takeWhile isLooseDigit)
          && isExponent tail
      else match places whole with
        | [_] => isLooseNumber whole && isExponent tail
        | first :: rest => isLooseNumber first && rest.all isLowPlace && tail.isEmpty
        | [] => false

/-! ## Times -/

/-- The parts of a time as they are written. -/
structure Time where
  year : Nat
  month : Nat
  day : Nat
  /-- Hour, minute, second and the digits of the fraction, if there is more than a day. -/
  clock : Option (Nat × Nat × Nat × List Char)
  /-- The distance from universal time in minutes, if it is given. -/
  offset : Option Int
  deriving DecidableEq, Inhabited

/-- A number of at least `least` and at most `most` digits, and what follows it. -/
def digits? (least most : Nat) (cs : List Char) : Option (Nat × List Char) :=
  let ds := (cs.take most).takeWhile isAsciiDigit
  if ds.length < least then none else some (natOfDigits ds, cs.drop ds.length)

/-- What follows a character. -/
def after? (mark : Char) : List Char → Option (List Char)
  | c :: cs => if c == mark then some cs else none
  | [] => none

/-- The space that may stand inside a time. -/
def isTimeSpace (c : Char) : Bool := c == ' ' || c == '\t'

/-- The distance from universal time at the end of a time. -/
def offset? (cs : List Char) : Option (Option Int) :=
  match cs.dropWhile isTimeSpace with
  | [] => if cs.isEmpty then some none else none
  | ['Z'] => some (some 0)
  | mark :: ds =>
    if mark != '-' && mark != '+' then none
    else do
      let (hours, rest) ← digits? 1 2 ds
      let minutes ← (match rest with
        | [] => some 0
        | ':' :: ms => do
          let (m, rest) ← digits? 2 2 ms
          if rest.isEmpty then some m else none
        | _ => none)
      let total : Int := hours * 60 + minutes
      return some (if mark == '-' then -total else total)

/-- The time that characters write. -/
def time? (cs : List Char) : Option Time := do
  let (year, rest) ← digits? 4 4 cs
  let rest ← after? '-' rest
  let (month, rest) ← digits? 1 2 rest
  let rest ← after? '-' rest
  let (day, rest) ← digits? 1 2 rest
  if rest.isEmpty then return ⟨year, month, day, none, none⟩
  let rest ← (match rest with
    | 'T' :: r | 't' :: r => some r
    | r =>
      let inner := r.dropWhile isTimeSpace
      if inner.length == r.length then none else some inner)
  let (hour, rest) ← digits? 1 2 rest
  let rest ← after? ':' rest
  let (minute, rest) ← digits? 2 2 rest
  let rest ← after? ':' rest
  let (second, rest) ← digits? 2 2 rest
  let (fraction, rest) := match rest with
    | '.' :: r => (r.takeWhile isAsciiDigit, r.dropWhile isAsciiDigit)
    | r => ([], r)
  return ⟨year, month, day, some (hour, minute, second, fraction), ← offset? rest⟩

/-- The characters are a time; a day alone has two digits for month and day. -/
def isTime (cs : List Char) : Bool :=
  match time? cs with
  | none => false
  | some t => t.clock.isSome || cs.length == 10

/-- The tag of a plain scalar. -/
def tagOf (s : String) : Tag :=
  let cs := s.toList
  if (truth? s).isSome then .truth
  else if isFloat cs then .float
  else if isInteger cs then .integer
  else if s == "<<" then .merge
  else if isNull s then .null
  else if isTime cs then .time
  else if s == "=" then .standIn
  else .text

end Plain

end Assay.Yaml
