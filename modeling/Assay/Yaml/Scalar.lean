import Assay.Yaml.Cursor

/-!
# Scalars in YAML texts

The texts of scalars in their five styles: plain (`Scalar.plain`), in single or double quotation
marks (`Scalar.quoted`), and as blocks of lines that are kept or folded (`Scalar.block`). A line
break inside a plain, quoted or folded scalar stands for a space, and of several the first is
dropped.
-/

namespace Assay.Yaml.Scalar

open Reading

/-- What a line break and the empty lines after it stand for inside a scalar. -/
def folded (first empty : List Char) : List Char :=
  (if first != ['\n'] then first else if empty.isEmpty then [' '] else []) ++ empty

/-! ## Plain scalars -/

/-- The characters that structure flow collections. -/
def isFlowMark (c : Char) : Bool := c == ',' || c == '[' || c == ']' || c == '\x7b' || c == '\x7d'

/-- The characters of a plain scalar up to white space or a mark. -/
def plainRun (inFlow : Bool) : List Char → List Char
  | [] => []
  | c :: cs =>
    let after := (cs.head?).getD endMark
    let endsKey := c == ':' && (isBlankOrEnd after || (inFlow && isFlowMark after))
    if isBlankOrEnd c || endsKey || (inFlow && (isFlowMark c || c == '?')) then []
    else c :: plainRun inFlow cs

/-- The empty lines inside a plain scalar, unless a document ends there. -/
def plainBreaks : Nat → List Char → Reading (Option (List Char))
  | 0, found => return some found
  | fuel + 1, found => do
    let c ← peek
    if c == ' ' then
      skip 1
      plainBreaks fuel found
    else if isBreak c then
      let found := found ++ (← lineBreak)
      if (← get).isAtDocumentMark then return none else plainBreaks fuel found
    else return some found

/-- The space inside a plain scalar, and whether it holds a line break. -/
def plainSpace : Reading (List Char × Bool) := do
  let spaces ← takeWhile (· == ' ')
  if isBreak (← peek) then
    let first ← lineBreak
    if (← get).isAtDocumentMark then return ([], true)
    match ← plainBreaks ((← get).rest.length + 1) [] with
    | none => return ([], true)
    | some empty => return (folded first empty, true)
  else return (spaces, false)

/-- The rest of a plain scalar after what was found and the space after that. -/
def plainFrom (inFlow : Bool) (indent : Int) :
    Nat → List Char → List Char → Bool → Reading (List Char × Bool)
  | 0, found, _, crossed => return (found, crossed)
  | fuel + 1, found, space, crossed => do
    let run := plainRun inFlow (← get).rest
    if (← peek) == '#' || run.isEmpty then return (found, crossed)
    skip run.length
    let found := found ++ space ++ run
    let (space, crossed) ← plainSpace
    let c ← get
    if space.isEmpty || c.peekAt 0 == '#' || (!inFlow && c.column < indent) then
      return (found, crossed)
    else plainFrom inFlow indent fuel found space crossed

/-- A plain scalar, whose lines are indented, and whether a line break follows it. -/
def plain (inFlow : Bool) (indent : Int) : Reading (List Char × Bool) := do
  plainFrom inFlow indent ((← get).rest.length + 1) [] [] false

/-! ## Quoted scalars -/

/-- The character that a short escape stands for. -/
def shortEscape? : Char → Option Char
  | '0' => some '\x00'
  | 'a' => some '\x07'
  | 'b' => some '\x08'
  | 't' | '\t' => some '\t'
  | 'n' => some '\n'
  | 'v' => some '\x0b'
  | 'f' => some '\x0c'
  | 'r' => some '\r'
  | 'e' => some '\x1b'
  | ' ' => some ' '
  | '"' => some '"'
  | '\\' => some '\\'
  | '/' => some '/'
  | 'N' => some '\x85'
  | '_' => some '\xa0'
  | 'L' => some '\u2028'
  | 'P' => some '\u2029'
  | _ => none

/-- The number of digits of an escape by number. -/
def digitsOfEscape? : Char → Option Nat
  | 'x' => some 2
  | 'u' => some 4
  | 'U' => some 8
  | _ => none

/-- The value of a hexadecimal digit. -/
def hexDigit? (c : Char) : Option Nat :=
  if '0' ≤ c && c ≤ '9' then some (c.toNat - '0'.toNat)
  else if 'a' ≤ c && c ≤ 'f' then some (c.toNat - 'a'.toNat + 10)
  else if 'A' ≤ c && c ≤ 'F' then some (c.toNat - 'A'.toNat + 10)
  else none

/-- A character by its number in a number of hexadecimal digits. -/
def numbered (size : Nat) : Reading Char := do
  let digits := (← get).rest.take size
  let some values := digits.mapM hexDigit? | failure
  require (digits.length == size)
  skip size
  return Char.ofNat (values.foldl (fun n d => n * 16 + d) 0)

/-- The empty lines inside a quoted scalar. -/
def quotedBreaks : Nat → List Char → Reading (List Char)
  | 0, found => return found
  | fuel + 1, found => do
    require (!(← get).isAtDocumentMark)
    let _ ← takeWhile fun c => c == ' ' || c == '\t'
    if isBreak (← peek) then quotedBreaks fuel (found ++ (← lineBreak)) else return found

/-- All empty lines from here on. -/
def emptyLines : Reading (List Char) := do quotedBreaks ((← get).rest.length + 1) []

/-- White space inside a quoted scalar. -/
def quotedSpace : Reading (List Char) := do
  let spaces ← takeWhile fun c => c == ' ' || c == '\t'
  let c ← peek
  require (c != endMark)
  if isBreak c then
    let first ← lineBreak
    return folded first (← emptyLines)
  else return spaces

/-- An escape, from the character after the backslash on. -/
def escape : Reading (List Char) := do
  let c ← peek
  match shortEscape? c, digitsOfEscape? c with
  | some ch, _ =>
    skip 1
    return [ch]
  | none, some size =>
    skip 1
    return [← numbered size]
  | none, none =>
    require (isBreak c)
    let _ ← lineBreak
    emptyLines

/-- The rest of a quoted scalar after what was found. -/
def quotedFrom (isDouble : Bool) : Nat → List Char → Reading (List Char)
  | 0, _ => failure
  | fuel + 1, found => do
    let c ← peek
    if isDouble && c == '\\' then
      skip 1
      quotedFrom isDouble fuel (found ++ (← escape))
    else if !isDouble && c == '\'' && (← peekAt 1) == '\'' then
      skip 2
      quotedFrom isDouble fuel (found ++ ['\''])
    else if c == (if isDouble then '"' else '\'') then
      skip 1
      return found
    else if isBlankOrEnd c then quotedFrom isDouble fuel (found ++ (← quotedSpace))
    else
      skip 1
      quotedFrom isDouble fuel (found ++ [c])

/-- A scalar in quotation marks. -/
def quoted (isDouble : Bool) : Reading (List Char) := do
  skip 1
  quotedFrom isDouble ((← get).rest.length + 1) []

/-! ## Block scalars -/

/-- What happens to the line breaks at the end of a block. -/
inductive Chomping
  | clip
  | strip
  | keep
  deriving DecidableEq, Inhabited

/-- The chomping sign, if there is one. -/
def chomping : Reading (Option Chomping) := do
  match ← peek with
  | '+' =>
    skip 1
    return some .keep
  | '-' =>
    skip 1
    return some .strip
  | _ => return none

/-- The indentation sign, if there is one. -/
def increment : Reading (Option Nat) := do
  let c ← peek
  if '0' ≤ c && c ≤ '9' then
    require (c != '0')
    skip 1
    return some (c.toNat - '0'.toNat)
  else return none

/-- The signs after the mark of a block, in any order. -/
def blockSigns : Reading (Chomping × Option Nat) := do
  let early ← chomping
  let size ← increment
  let late ← (if early.isNone && size.isSome then chomping else pure none)
  require (isSpaceOrEnd (← peek))
  return ((early.or late).getD .clip, size)

/-- The rest of the line of the mark, which holds nothing but a comment. -/
def restOfLine : Reading Unit := do
  let _ ← takeWhile (· == ' ')
  if (← peek) == '#' then
    let _ ← takeWhile fun c => !isBreakOrEnd c
  require (isBreakOrEnd (← peek))
  let _ ← lineBreak

/-- The empty lines before a block, and the widest indentation among them and of the block. -/
def leadingLines : Nat → List Char → Nat → Reading (List Char × Nat)
  | 0, found, widest => return (found, widest)
  | fuel + 1, found, widest => do
    let c ← peek
    if c == ' ' then
      skip 1
      leadingLines fuel found (max widest (← get).column)
    else if isBreak c then leadingLines fuel (found ++ (← lineBreak)) widest
    else return (found, widest)

/-- Read past spaces up to a column. -/
def indentation (indent : Nat) : Reading Unit := do
  let c ← get
  skip ((c.rest.takeWhile (· == ' ')).take (indent - c.column)).length

/-- The empty lines between the lines of a block, and the indentation of the next line. -/
def blockBreaks (indent : Nat) : Nat → List Char → Reading (List Char)
  | 0, found => return found
  | fuel + 1, found => do
    indentation indent
    if isBreak (← peek) then blockBreaks indent fuel (found ++ (← lineBreak)) else return found

/-- The lines of a block after what was found, a line break and empty lines. -/
def blockLines (isFolded : Bool) (indent : Nat) :
    Nat → List Char → List Char → List Char → Reading (List Char × List Char × List Char)
  | 0, found, last, empty => return (found, last, empty)
  | fuel + 1, found, last, empty => do
    let c ← get
    if c.column != indent || c.rest.isEmpty then return (found, last, empty)
    let startsBlank := c.peekAt 0 == ' ' || c.peekAt 0 == '\t'
    let line ← takeWhile fun ch => !isBreakOrEnd ch
    let found := found ++ empty ++ line
    let last ← lineBreak
    let empty ← blockBreaks indent ((← get).rest.length + 1) []
    let next ← get
    if next.column == indent && !next.rest.isEmpty then
      let nextBlank := next.peekAt 0 == ' ' || next.peekAt 0 == '\t'
      let joint :=
        if isFolded && last == ['\n'] && !startsBlank && !nextBlank then
          if empty.isEmpty then [' '] else []
        else last
      blockLines isFolded indent fuel (found ++ joint) last empty
    else return (found, last, empty)

/-- A block of lines, whose indentation is deeper than that of what holds it. -/
def block (isFolded : Bool) (outer : Int) : Reading (List Char) := do
  skip 1
  let (chomp, size) ← blockSigns
  restOfLine
  let least := (max (outer + 1) 1).toNat
  let fuel := (← get).rest.length + 1
  let (empty, indent) ← (do
    match size with
    | none =>
      let (empty, widest) ← leadingLines fuel [] 0
      return (empty, max least widest)
    | some n =>
      let indent := least + n - 1
      return (← blockBreaks indent fuel [], indent))
  let (found, last, empty) ← blockLines isFolded indent fuel [] [] empty
  return found ++ (if chomp == .strip then [] else last) ++ (if chomp == .keep then empty else [])

end Assay.Yaml.Scalar
