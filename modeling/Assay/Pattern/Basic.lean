import Assay.Text.Alphanumeric
import Assay.Text.Blank
import Assay.Text.Digit
import Assay.Text.LetterCase

/-!
# Patterns

Regular expressions with captures, look-around and back-references. This module holds their
shape and the meaning of their character sets; `Assay.Pattern.Parser` reads them and
`Assay.Pattern.Matcher` says what they match.
-/

namespace Assay

/-- The named classes of characters: digits of any script, white space, word characters. -/
inductive CharClass
  | digit
  | blank
  | word
  deriving DecidableEq, Inhabited

/-- One member of a character set. -/
inductive SetItem
  | single (c : Char)
  | range (first last : Char)
  | named (negated : Bool) (cls : CharClass)
  deriving DecidableEq, Inhabited

/-- A place that a pattern can require without reading a character. -/
inductive Anchor
  | textStart
  | textEnd
  /-- The end of the text, or just before a line feed that ends it. -/
  | lastLineEnd
  | lineStart
  | lineEnd
  | wordBoundary
  | noWordBoundary
  deriving DecidableEq, Inhabited

/-- A regular expression. `fold` marks the parts that ignore case. -/
inductive Pattern
  | empty
  | char (fold : Bool) (c : Char)
  | any (newline : Bool)
  | set (fold negated : Bool) (items : List SetItem)
  | anchor (a : Anchor)
  | seq (p q : Pattern)
  | alt (p q : Pattern)
  /-- At least `low` and at most `high` copies; no upper bound when `high` is missing. -/
  | rep (p : Pattern) (low : Nat) (high : Option Nat)
  | group (index : Nat) (p : Pattern)
  | backref (fold : Bool) (index : Nat)
  | ahead (negated : Bool) (p : Pattern)
  /-- A look behind at exactly `width` characters. -/
  | behind (negated : Bool) (width : Nat) (p : Pattern)
  deriving DecidableEq, Inhabited

namespace CharClass

/-- The characters of a named class. -/
def holds : CharClass → Char → Bool
  | digit, c => Text.isDecimal c
  | blank, c => Text.isBlank c
  | word, c => Text.isAlphanumeric c || c == '_'

end CharClass

/-- Letters that are one letter when case is ignored although lowering does not show it. -/
def caseEquivalents : List (List Nat) :=
  [[0x69, 0x131], [0x73, 0x17f], [0xb5, 0x3bc], [0x345, 0x3b9, 0x1fbe], [0x390, 0x1fd3],
   [0x3b0, 0x1fe3], [0x3b2, 0x3d0], [0x3b5, 0x3f5], [0x3b8, 0x3d1], [0x3ba, 0x3f0],
   [0x3c0, 0x3d6], [0x3c1, 0x3f1], [0x3c2, 0x3c3], [0x3c6, 0x3d5], [0x432, 0x1c80],
   [0x434, 0x1c81], [0x43e, 0x1c82], [0x441, 0x1c83], [0x442, 0x1c84, 0x1c85], [0x44a, 0x1c86],
   [0x463, 0x1c87], [0x1c88, 0xa64b], [0x1e61, 0x1e9b], [0xfb05, 0xfb06]]

/-- The two characters are one letter when case is ignored. -/
def sameLetter (a b : Char) : Bool :=
  let x := Text.simpleLower a
  let y := Text.simpleLower b
  x == y || caseEquivalents.any fun cls => cls.contains x.toNat && cls.contains y.toNat

namespace SetItem

/-- The item holds the character as it stands. -/
def holds (item : SetItem) (c : Char) : Bool :=
  match item with
  | single d => c == d
  | range first last => first ≤ c && c ≤ last
  | named negated cls => cls.holds c != negated

/-- The item holds the character in some case. -/
def holdsFold (item : SetItem) (c : Char) : Bool :=
  match item with
  | single d => sameLetter c d
  | range .. => item.holds (Text.simpleLower c) || item.holds (Text.simpleUpper (Text.simpleLower c))
  | named .. => item.holds (Text.simpleLower c)

end SetItem

/-- The set, negated or not, holds the character. -/
def setHolds (fold negated : Bool) (items : List SetItem) (c : Char) : Bool :=
  (items.any fun item => if fold then item.holdsFold c else item.holds c) != negated

namespace Pattern

/-- The least number of characters that a match reads. Back-references count as nothing. -/
def minWidth : Pattern → Nat
  | empty | anchor _ | backref .. | ahead .. | behind .. => 0
  | char .. | any _ | set .. => 1
  | seq p q => p.minWidth + q.minWidth
  | alt p q => min p.minWidth q.minWidth
  | rep p low _ => p.minWidth * low
  | group _ p => p.minWidth

/-- The greatest number of characters that a match reads, if there is one. -/
def maxWidth? : Pattern → Option Nat
  | empty | anchor _ | ahead .. | behind .. => some 0
  | char .. | any _ | set .. => some 1
  | backref .. => none
  | seq p q => do return (← p.maxWidth?) + (← q.maxWidth?)
  | alt p q => do return max (← p.maxWidth?) (← q.maxWidth?)
  | rep p _ high => do
    let w ← p.maxWidth?
    if w = 0 then return 0 else return w * (← high)
  | group _ p => p.maxWidth?

/-- The number of characters that every match reads, if it is always the same. -/
def fixedWidth? (p : Pattern) : Option Nat :=
  p.maxWidth?.filter (· == p.minWidth)

end Pattern

end Assay
