import Assay.Yaml.Scalar
import Assay.Yaml.Token

/-!
# From text to tokens

Splitting a text into tokens (`Lexer.tokens?`). Block collections start where the column grows
and end where it falls back. A key is only known to be one by the colon after it, so every place
where a key may start is kept (`Lexer.Candidate`) until the colon comes, or until it no longer
may, at the end of the line or a thousand characters on.
-/

namespace Assay.Yaml

namespace Lexer

/-- A place where a key may have started. -/
structure Candidate where
  /-- The number of brackets that are open there. -/
  level : Nat
  /-- The number of tokens before it. -/
  position : Nat
  /-- Only a key can stand there. -/
  isRequired : Bool
  start : Cursor
  deriving Inhabited

/-- The state between two tokens. -/
structure State where
  cursor : Cursor
  tokens : Array Token := #[]
  /-- The number of brackets that are open. -/
  level : Nat := 0
  /-- The column of the block collection that is open, below zero if there is none. -/
  indent : Int := -1
  /-- The columns of the block collections around it. -/
  outer : List Int := []
  mayStartKey : Bool := true
  candidates : List Candidate := []
  deriving Inhabited

/-- Splitting a text, which fails if it is not YAML. -/
abbrev Lexing := StateT State Option

/-- Read a part of the text. -/
def read {α : Type} (part : Reading α) : Lexing α := do
  let s ← get
  match part.run s.cursor with
  | none => failure
  | some (a, cursor) =>
    set { s with cursor := cursor }
    return a

/-- Require a condition on the text. -/
def require (condition : Bool) : Lexing Unit := if condition then pure () else failure

/-- Add a token. -/
def emit (t : Token) : Lexing Unit :=
  modify fun s => { s with tokens := s.tokens.push t }

/-- Put tokens before those from a position on. -/
def emitAt (position : Nat) (ts : List Token) : Lexing Unit :=
  modify fun s =>
    let before := s.tokens.extract 0 position
    let after := s.tokens.extract position s.tokens.size
    { s with tokens := before ++ ts.toArray ++ after }

/-- Tell whether a key may start at the next token. -/
def allowKey (allowed : Bool) : Lexing Unit :=
  modify fun s => { s with mayStartKey := allowed }

/-! ## Indentation -/

/-- The columns that remain when the collections beyond a column end, with their number. -/
def closeBeyond (column : Int) : Int → List Int → Int × List Int × Nat
  | indent, [] => (indent, [], 0)
  | indent, o :: outer =>
    if column < indent then
      let (i, rest, n) := closeBeyond column o outer
      (i, rest, n + 1)
    else (indent, o :: outer, 0)

/-- End the block collections beyond a column. -/
def unwind (column : Int) : Lexing Unit :=
  modify fun s =>
    if s.level != 0 then s
    else
      let (indent, outer, n) := closeBeyond column s.indent s.outer
      { s with
        indent := indent
        outer := outer
        tokens := s.tokens ++ Array.replicate n Token.blockEnd }

/-- Open a block collection at a column, unless one is open there. -/
def openAt (column : Int) : Lexing Bool := do
  let s ← get
  if s.indent < column then
    set { s with indent := column, outer := s.indent :: s.outer }
    return true
  else return false

/-! ## Keys -/

/-- How far a key may reach. -/
def keyReach : Nat := 1024

/-- Give up the candidates that can no longer be keys. -/
def dropStale : Lexing Unit := do
  let s ← get
  let isStale (k : Candidate) : Bool :=
    k.start.line != s.cursor.line || keyReach < s.cursor.index - k.start.index
  require (!s.candidates.any fun k => isStale k && k.isRequired)
  set { s with candidates := s.candidates.filter fun k => !isStale k }

/-- Give up the candidate at this level. -/
def dropCandidate : Lexing Unit := do
  let s ← get
  require (!s.candidates.any fun k => k.level == s.level && k.isRequired)
  set { s with candidates := s.candidates.filter fun k => k.level != s.level }

/-- A key may start here. -/
def markCandidate : Lexing Unit := do
  if (← get).mayStartKey then
    dropCandidate
    modify fun s =>
      let isRequired := s.level == 0 && s.indent == s.cursor.column
      let new : Candidate := ⟨s.level, s.tokens.size, isRequired, s.cursor⟩
      { s with candidates := new :: s.candidates }

/-! ## Tokens -/

/-- Go on to the next token, past spaces, comments and line ends. -/
def toNextToken : Nat → Lexing Unit
  | 0 => pure ()
  | fuel + 1 => do
    let _ ← read (Reading.takeWhile (· == ' '))
    if (← read Reading.peek) == '#' then
      let _ ← read (Reading.takeWhile fun c => !isBreakOrEnd c)
    if isBreak (← read Reading.peek) then
      let _ ← read Reading.lineBreak
      if (← get).level == 0 then allowKey true
      toNextToken fuel

/-- The end of the text. -/
def finish : Lexing Unit := do
  unwind (-1)
  dropCandidate

/-- A directive, or a mark between documents. -/
def betweenDocuments (token : Reading Token) : Lexing Unit := do
  unwind (-1)
  dropCandidate
  allowKey false
  emit (← read token)

/-- A token of some characters. -/
def sign (size : Nat) (t : Token) : Reading Token := do
  Reading.skip size
  return t

/-- An opening bracket. -/
def openFlow (t : Token) : Lexing Unit := do
  markCandidate
  modify fun s => { s with level := s.level + 1 }
  allowKey true
  emit (← read (sign 1 t))

/-- A closing bracket. -/
def closeFlow (t : Token) : Lexing Unit := do
  require ((← get).level != 0)
  dropCandidate
  modify fun s => { s with level := s.level - 1 }
  allowKey false
  emit (← read (sign 1 t))

/-- A comma between the entries of a flow collection. -/
def flowEntry : Lexing Unit := do
  allowKey true
  dropCandidate
  emit (← read (sign 1 .flowEntry))

/-- Open a block collection here if need be, where one may start. -/
def openBlock (start : Token) : Lexing Unit := do
  let s ← get
  if s.level == 0 then
    require s.mayStartKey
    if ← openAt s.cursor.column then emit start

/-- The dash of an entry of a block sequence. -/
def blockEntry : Lexing Unit := do
  openBlock .blockSequenceStart
  allowKey true
  dropCandidate
  emit (← read (sign 1 .blockEntry))

/-- The question mark of an explicit key. -/
def explicitKey : Lexing Unit := do
  openBlock .blockMappingStart
  allowKey ((← get).level == 0)
  dropCandidate
  emit (← read (sign 1 .key))

/-- The colon between a key and its value. -/
def keyValue : Lexing Unit := do
  let s ← get
  match s.candidates.find? (·.level == s.level) with
  | some k =>
    set { s with candidates := s.candidates.filter (·.level != s.level) }
    let opens ← (if s.level == 0 then openAt k.start.column else pure false)
    emitAt k.position (if opens then [.blockMappingStart, .key] else [.key])
    allowKey false
  | none =>
    openBlock .blockMappingStart
    allowKey ((← get).level == 0)
    dropCandidate
  emit (← read (sign 1 .value))

/-- A token that a key may start with. -/
def keyStart (token : Reading Token) : Lexing Unit := do
  markCandidate
  allowKey false
  emit (← read token)

/-- A scalar in quotation marks. -/
def quotedScalar (isDouble : Bool) : Lexing Unit :=
  keyStart do return .scalar (String.ofList (← Scalar.quoted isDouble)) false

/-- A plain scalar. A key may start after it only on a later line. -/
def plainScalar : Lexing Unit := do
  markCandidate
  let s ← get
  let (cs, crossed) ← read (Scalar.plain (s.level != 0) (s.indent + 1))
  allowKey crossed
  emit (.scalar (String.ofList cs) true)

/-- A block of lines. -/
def blockScalar (isFolded : Bool) : Lexing Unit := do
  allowKey true
  dropCandidate
  let cs ← read (Scalar.block isFolded (← get).indent)
  emit (.scalar (String.ofList cs) false)

/-- The character has a meaning of its own at the start of a token. -/
def isIndicator (c : Char) : Bool :=
  "-?:,[]#&*!|>'\"%@".toList.contains c || c == '\x7b' || c == '\x7d' || c.toNat == 96

/-- A plain scalar can start here. -/
def startsPlain (c after : Char) (inFlow : Bool) : Bool :=
  (!isBlankOrEnd c && !isIndicator c)
    || (!isBlankOrEnd after && (c == '-' || (!inFlow && (c == '?' || c == ':'))))

/-- One token. -/
def token : Lexing Unit := do
  let s ← get
  let c := s.cursor.peekAt 0
  let after := s.cursor.peekAt 1
  let inFlow := s.level != 0
  let atLineStart := s.cursor.column == 0
  if c == '%' && atLineStart then betweenDocuments Token.readDirective
  else if atLineStart && s.cursor.isAtMark "---" then betweenDocuments (sign 3 .documentStart)
  else if atLineStart && s.cursor.isAtMark "..." then betweenDocuments (sign 3 .documentEnd)
  else match c with
    | '[' => openFlow .flowSequenceStart
    | '\x7b' => openFlow .flowMappingStart
    | ']' => closeFlow .flowSequenceEnd
    | '\x7d' => closeFlow .flowMappingEnd
    | ',' => flowEntry
    | '*' => keyStart do return .alias (← Token.anchorName)
    | '&' => keyStart do return .anchor (← Token.anchorName)
    | '!' => keyStart Token.readTag
    | '\'' => quotedScalar false
    | '"' => quotedScalar true
    | _ =>
      if c == '-' && isBlankOrEnd after then
        if inFlow then failure else blockEntry
      else if c == '?' && (inFlow || isBlankOrEnd after) then explicitKey
      else if c == ':' && (inFlow || isBlankOrEnd after) then keyValue
      else if c == '|' && !inFlow then blockScalar false
      else if c == '>' && !inFlow then blockScalar true
      else if startsPlain c after inFlow then plainScalar
      else failure

/-- All tokens up to the end of the text. -/
def allTokens : Nat → Lexing Unit
  | 0 => failure
  | fuel + 1 => do
    toNextToken ((← get).cursor.rest.length + 1)
    dropStale
    unwind (← get).cursor.column
    if (← get).cursor.rest.isEmpty then finish
    else
      token
      allTokens fuel

/-- A character that may stand in a text. -/
def isAdmitted (c : Char) : Bool :=
  c == '\t' || c == '\n' || c == '\r' || c == '\x85' || (' ' ≤ c && c ≤ '~')
    || ('\xa0' ≤ c && c ≤ '\ufffd') || 0x10000 ≤ c.toNat

/-- The tokens of a text, if it has them. -/
def tokens? (s : String) : Option (List Token) := do
  let cs := s.toList
  if !cs.all isAdmitted then failure
  let start : Cursor :=
    match cs with
    | '\ufeff' :: rest => { rest, index := 1 }
    | cs => { rest := cs }
  let ((), state) ← (allTokens (cs.length + 2)).run { cursor := start }
  return state.tokens.toList

end Lexer

end Assay.Yaml
