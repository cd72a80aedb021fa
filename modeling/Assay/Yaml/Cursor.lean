/-!
# A place in a YAML text

The rest of a text with the line and column where it stands (`Yaml.Cursor`), and reading from
there (`Yaml.Reading`), which fails on a text that is not YAML. Past the end of the text stands
the character with number zero, which no text holds.
-/

namespace Assay.Yaml

/-- The character past the end of a text. -/
def endMark : Char := '\x00'

/-- The character ends a line. -/
def isBreak (c : Char) : Bool :=
  c == '\n' || c == '\r' || c == '\x85' || c == '\u2028' || c == '\u2029'

/-- The character ends a line or the text. -/
def isBreakOrEnd (c : Char) : Bool := c == endMark || isBreak c

/-- The character is a space, or ends a line or the text. -/
def isSpaceOrEnd (c : Char) : Bool := c == ' ' || isBreakOrEnd c

/-- The character is white space, or ends a line or the text. -/
def isBlankOrEnd (c : Char) : Bool := c == '\t' || isSpaceOrEnd c

/-- What is left of a text, and where it stands. -/
structure Cursor where
  rest : List Char
  /-- The number of characters before. -/
  index : Nat := 0
  line : Nat := 0
  column : Nat := 0
  deriving Inhabited

namespace Cursor

/-- Go on by one character. -/
def next (c : Cursor) : Cursor :=
  match c.rest with
  | [] => c
  | ch :: rest =>
    if isBreak ch && !(ch == '\r' && rest.head? == some '\n') then
      ⟨rest, c.index + 1, c.line + 1, 0⟩
    else
      ⟨rest, c.index + 1, c.line, if ch == '\ufeff' then c.column else c.column + 1⟩

/-- Go on by a number of characters. -/
def advance : Nat → Cursor → Cursor
  | 0, c => c
  | n + 1, c => advance n c.next

/-- The character at a distance. -/
def peekAt (c : Cursor) (n : Nat) : Char := ((c.rest.drop n).head?).getD endMark

/-- A mark between documents stands here, at the start of a line. -/
def isAtMark (c : Cursor) (mark : String) : Bool :=
  mark.toList.isPrefixOf c.rest && isBlankOrEnd (c.peekAt 3)

/-- A mark between documents stands here. -/
def isAtDocumentMark (c : Cursor) : Bool := c.isAtMark "---" || c.isAtMark "..."

end Cursor

/-- Reading a part of a text, which may fail. -/
abbrev Reading := StateT Cursor Option

namespace Reading

/-- The next character, which is not read yet. -/
def peek : Reading Char := do return (← get).peekAt 0

/-- The character at a distance, which is not read yet. -/
def peekAt (n : Nat) : Reading Char := do return (← get).peekAt n

/-- Read past a number of characters. -/
def skip (n : Nat) : Reading Unit := modify (Cursor.advance n)

/-- Read characters as long as they satisfy a test. -/
def takeWhile (test : Char → Bool) : Reading (List Char) := do
  let cs := (← get).rest.takeWhile test
  skip cs.length
  return cs

/-- Read the end of a line, if one is here. All but the separators count as a line feed. -/
def lineBreak : Reading (List Char) := do
  let c ← peek
  if c == '\r' && (← peekAt 1) == '\n' then
    skip 2
    return ['\n']
  else if isBreak c then
    skip 1
    return if c == '\u2028' || c == '\u2029' then [c] else ['\n']
  else return []

/-- Require a condition on what is read. -/
def require (condition : Bool) : Reading Unit := if condition then pure () else failure

end Reading

end Assay.Yaml
