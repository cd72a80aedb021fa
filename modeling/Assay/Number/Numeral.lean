import Assay.Number.Binary64
import Assay.Text.Blank
import Assay.Text.Digit

/-!
# Reading numerals

The text forms of decimal numbers: a sign, digits of any script with an optional point and
exponent, single underscores between digits, or the words for infinity and NaN; white space
around the numeral is ignored. `readBinary64?` rounds what is written to the nearest number.
-/

namespace Assay.Numeral

open Text

/-- What a numeral writes. -/
inductive Reading
  | decimal (negative : Bool) (digits : Nat) (exponent : Int)
  | infinity (negative : Bool)
  | nan
  | signalling
  deriving DecidableEq, Inhabited

/-- Decimal digits of every script become ASCII digits; white space becomes the space. -/
def asciiDigits (cs : List Char) : List Char :=
  cs.map fun c =>
    if isBlank c then ' '
    else match decimalValue? c with
      | some d => Char.ofNat ('0'.toNat + d)
      | none => c

/-- Split off a sign. -/
def sign : List Char → Bool × List Char
  | '-' :: cs => (true, cs)
  | '+' :: cs => (false, cs)
  | cs => (false, cs)

/-- ASCII lower case, for the words. -/
def lowerAscii (cs : List Char) : List Char := cs.map Char.toLower

/-- Remove underscores that stand between two digits; any other underscore is refused. -/
def dropUnderscores (previous : Char) : List Char → Option (List Char)
  | [] => if previous == '_' then none else some []
  | c :: cs =>
    if c == '_' then if isAsciiDigit previous then dropUnderscores c cs else none
    else if previous == '_' && !isAsciiDigit c then none
    else (dropUnderscores c cs).map (c :: ·)

/-- The exponent part: nothing, or `e`, a sign and digits. -/
def exponent? : List Char → Option Int
  | [] => some 0
  | c :: cs =>
    if c == 'e' || c == 'E' then
      let (negative, ds) := sign cs
      if ds.isEmpty || !ds.all isAsciiDigit then none
      else some (if negative then -(natOfDigits ds : Int) else natOfDigits ds)
    else none

/-- Digits with an optional point and exponent, at least one digit before the exponent. -/
def unsigned? (negative : Bool) (cs : List Char) : Option Reading :=
  let whole := cs.takeWhile isAsciiDigit
  let rest := cs.dropWhile isAsciiDigit
  let (places, tail) := match rest with
    | '.' :: r => (r.takeWhile isAsciiDigit, r.dropWhile isAsciiDigit)
    | r => ([], r)
  if whole.isEmpty && places.isEmpty then none
  else (exponent? tail).map fun e =>
    .decimal negative (natOfDigits (whole ++ places)) (e - places.length)

/-- The numeral of a binary64 number. -/
def floatReading? (s : String) : Option Reading :=
  let body := trimList isBlank (asciiDigits s.toList)
  let (negative, cs) := sign body
  let word := lowerAscii cs
  if word == "inf".toList || word == "infinity".toList then some (.infinity negative)
  else if word == "nan".toList then some .nan
  else (dropUnderscores ' ' cs).bind (unsigned? negative)

/-- The numeral of an exact decimal. Underscores may stand anywhere, and a NaN may carry
digits or signal. -/
def decimalReading? (s : String) : Option Reading :=
  let body := (trimList isBlank (asciiDigits s.toList)).filter (· != '_')
  let (negative, cs) := sign body
  let word := lowerAscii cs
  if word == "inf".toList || word == "infinity".toList then some (.infinity negative)
  else if word.take 3 == "nan".toList && (word.drop 3).all isAsciiDigit then some .nan
  else if word.take 4 == "snan".toList && (word.drop 4).all isAsciiDigit then some .signalling
  else unsigned? negative cs

end Assay.Numeral
