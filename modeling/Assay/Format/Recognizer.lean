import Assay.Calendar.Iso
import Assay.Net.Address
import Assay.Text.Digit

/-!
# Recognizers for text formats

Each format is recognized by its parts: an e-mail address by a local part and dot-separated
labels, a UUID by groups of hexadecimal digits, a time of day by its fields, and so on. A
recognizer of a leading part gives the rest of the text. Digits of times and dates may come
from any script, but a day of the calendar is written in ASCII.
-/

namespace Assay.Recognizer

open Text

/-- An ASCII letter or digit. -/
def isAlnum (c : Char) : Bool := c.isAlphanum

/-- Read one character that satisfies `p`. -/
def char (p : Char → Bool) : List Char → Option (List Char)
  | c :: cs => if p c then some cs else none
  | [] => none

/-- Read characters that satisfy the predicates one after the other. -/
def chars : List (Char → Bool) → List Char → Option (List Char)
  | [], cs => some cs
  | p :: ps, cs => (char p cs).bind (chars ps)

/-- Exactly `n` characters, all of which satisfy `p`. -/
def isRun (p : Char → Bool) (n : Nat) (cs : List Char) : Bool :=
  cs.length == n && cs.all p

/-! ## Addresses and names -/

/-- The text has no two points in a row. -/
def noDoublePoint : List Char → Bool
  | '.' :: '.' :: _ => false
  | _ :: cs => noDoublePoint cs
  | [] => true

/-- A local part: letters, digits and marks that neither start nor end with a point or end with
an apostrophe. -/
def isLocalPart (cs : List Char) : Bool :=
  match cs.getLast? with
  | none => false
  | some last =>
    cs.head? != some '.' && noDoublePoint cs
      && cs.all (fun c => isAlnum c || ['_', '\'', '+', '-', '.'].contains c)
      && (isAlnum last || ['_', '+', '-'].contains last)

/-- A label of a mail domain starts with a letter or digit. -/
def isMailLabel : List Char → Bool
  | [] => false
  | c :: cs => isAlnum c && cs.all fun d => isAlnum d || d == '-'

/-- A domain of mail: labels and a last one of at least two letters. -/
def isMailDomain (cs : List Char) : Bool :=
  match (Net.splitAll '.' cs).reverse with
  | last :: before :: rest =>
    2 ≤ last.length && last.all Char.isAlpha && (before :: rest).all isMailLabel
  | _ => false

/-- An e-mail address. -/
def isEmail (cs : List Char) : Bool :=
  match Net.splitAll '@' cs with
  | [localPart, domain] => isLocalPart localPart && isMailDomain domain
  | _ => false

/-- A host label: up to 63 letters, digits and hyphens, with no hyphen at either end. -/
def isHostLabel (cs : List Char) : Bool :=
  1 ≤ cs.length && cs.length ≤ 63 && cs.all (fun c => isAlnum c || c == '-')
    && cs.head? != some '-' && cs.getLast? != some '-'

/-- A text without one point at its end. -/
def withoutLastPoint (cs : List Char) : List Char :=
  if cs.getLast? == some '.' then cs.dropLast else cs

/-- A host name: labels with at most 253 characters in all, perhaps with a point at the end. -/
def isHostname (cs : List Char) : Bool :=
  let name := withoutLastPoint cs
  name.length ≤ 253 && (Net.splitAll '.' name).all isHostLabel

/-! ## Digits and encodings -/

/-- A UUID of versions 1 to 8 by its groups. -/
def isVersionedUuid : List (List Char) → Bool
  | [a, b, v :: c, w :: d, e] =>
    isRun Net.isHexDigit 8 a && isRun Net.isHexDigit 4 b
      && ('1' ≤ v && v ≤ '8') && isRun Net.isHexDigit 3 c
      && ['8', '9', 'a', 'b', 'A', 'B'].contains w && isRun Net.isHexDigit 3 d
      && isRun Net.isHexDigit 12 e
  | _ => false

/-- The groups of a UUID all of whose digits satisfy `p`. -/
def isUniformUuid (p : Char → Bool) (groups : List (List Char)) : Bool :=
  groups.map List.length == [8, 4, 4, 4, 12] && groups.all (·.all p)

/-- A UUID, or one of the two that are all zeros or all ones. -/
def isUuid (cs : List Char) : Bool :=
  let groups := Net.splitAll '-' cs
  isVersionedUuid groups || isUniformUuid (· == '0') groups
    || isUniformUuid (fun c => c == 'f' || c == 'F') groups

/-- A digit of base 64. -/
def isBase64Digit (c : Char) : Bool := isAlnum c || c == '+' || c == '/'

/-- Groups of four digits, the last perhaps filled up with one or two equals signs. -/
def isBase64 : List Char → Bool
  | [] => true
  | [a, b, '=', '='] => isBase64Digit a && isBase64Digit b
  | [a, b, c, '='] => isBase64Digit a && isBase64Digit b && isBase64Digit c
  | a :: b :: c :: d :: rest => [a, b, c, d].all isBase64Digit && isBase64 rest
  | _ => false

/-! ## Dates and times -/

/-- Read an hour. -/
def hour (cs : List Char) : Option (List Char) :=
  match cs with
  | '2' :: rest => char (fun c => '0' ≤ c && c ≤ '3') rest
  | _ => chars [fun c => c == '0' || c == '1', isDecimal] cs

/-- Read a minute or second. -/
def sixtieth : List Char → Option (List Char) :=
  chars [fun c => '0' ≤ c && c ≤ '5', isDecimal]

/-- Read a fraction of a second, if there is one. -/
def fraction (cs : List Char) : Option (List Char) :=
  match cs with
  | '.' :: rest => if (rest.head?.map isDecimal) == some true then some (rest.dropWhile isDecimal) else none
  | _ => some cs

/-- Read hours and minutes, perhaps with seconds and a fraction. -/
def time (cs : List Char) : Option (List Char) := do
  let rest ← sixtieth (← char (· == ':') (← hour cs))
  match rest with
  | ':' :: seconds => fraction (← sixtieth seconds)
  | _ => return rest

/-- The text is a time of day. -/
def isTime (cs : List Char) : Bool := time cs == some []

/-- Read four, two and two digits with hyphens between. -/
def dayDigits : List Char → Option (List Char) :=
  chars [isDecimal, isDecimal, isDecimal, isDecimal, (· == '-'), isDecimal, isDecimal, (· == '-'),
    isDecimal, isDecimal]

/-- The text is a day of the calendar. -/
def isDay (cs : List Char) : Bool :=
  dayDigits cs == some [] && (Date.ofIso? (String.ofList cs)).isSome

/-- What follows a time is an offset from universal time, or nothing. -/
def isOffset : List Char → Bool
  | [] => true
  | ['Z'] => true
  | c :: cs =>
    (c == '+' || c == '-') &&
      match hour cs with
      | some (':' :: rest) => sixtieth rest == some []
      | some rest => sixtieth rest == some []
      | none => false

/-- The text is a day of the calendar with a time of day and perhaps an offset. -/
def isDayTime (cs : List Char) : Bool :=
  match (dayDigits cs).bind (char (· == 'T')) with
  | some rest =>
    match time rest with
    | some zone => isOffset zone && (Date.ofIso? (String.ofList (cs.take 10))).isSome
    | none => false
  | none => false

end Assay.Recognizer
