import Assay.Yaml.Cursor

/-!
# Tokens of YAML texts

The parts of which a text consists once its layout is made explicit: indentation becomes the
start and end of block collections. The tokens that say something about a node or document are
read here: anchors and aliases, tags, and directives.
-/

namespace Assay.Yaml

/-- A token. -/
inductive Token
  /-- The version of the format, of which only the major number matters. -/
  | version (major : Nat)
  /-- A handle and what it stands for in tags. -/
  | handle (name expansion : String)
  | unknownDirective
  | documentStart
  | documentEnd
  | blockSequenceStart
  | blockMappingStart
  | blockEnd
  | flowSequenceStart
  | flowSequenceEnd
  | flowMappingStart
  | flowMappingEnd
  | blockEntry
  | flowEntry
  | key
  | value
  | alias (name : String)
  | anchor (name : String)
  /-- A tag, by a handle unless it is written in full. -/
  | tag (handle : Option String) (suffix : String)
  | scalar (text : String) (isPlain : Bool)
  deriving DecidableEq, Inhabited

namespace Token

open Reading

/-- The character may be part of a name. -/
def isNameChar (c : Char) : Bool := c.isAlphanum || c == '-' || c == '_'

/-- A name, which is not empty. -/
def name : Reading String := do
  let cs ← takeWhile isNameChar
  require (!cs.isEmpty)
  return String.ofList cs

/-- The name of an anchor or alias, from its sign on. -/
def anchorName : Reading String := do
  skip 1
  let n ← name
  let c ← peek
  require (isBlankOrEnd c || "?:,]\x7d%@".toList.contains c || c.toNat == 96)
  return n

/-- The character may be part of a tag. -/
def isTagChar (c : Char) : Bool :=
  c.isAlphanum || "-;/?:@&=+$,_.!~*'()[]%".toList.contains c

/-- The value of a hexadecimal digit. -/
def hexValue? (c : Char) : Option Nat :=
  if '0' ≤ c && c ≤ '9' then some (c.toNat - '0'.toNat)
  else if 'a' ≤ c && c ≤ 'f' then some (c.toNat - 'a'.toNat + 10)
  else if 'A' ≤ c && c ≤ 'F' then some (c.toNat - 'A'.toNat + 10)
  else none

/-- The bytes of a tag, in which a percent sign escapes one by its number. -/
def tagBytes : List Char → Option (List UInt8)
  | [] => some []
  | '%' :: a :: b :: cs => do
    let byte := UInt8.ofNat ((← hexValue? a) * 16 + (← hexValue? b))
    return byte :: (← tagBytes cs)
  | '%' :: _ => none
  | c :: cs => do return (String.singleton c).toUTF8.toList ++ (← tagBytes cs)

/-- The main part of a tag. -/
def tagSuffix : Reading String := do
  let cs ← takeWhile isTagChar
  require (!cs.isEmpty)
  let some bytes := tagBytes cs | failure
  let some text := String.fromUTF8? ⟨bytes.toArray⟩ | failure
  return text

/-- A handle: an exclamation mark before a space, or a name between two. -/
def tagHandle : Reading String := do
  require ((← peek) == '!')
  skip 1
  if (← peek) == ' ' then return "!"
  let cs ← takeWhile isNameChar
  require ((← peek) == '!')
  skip 1
  return "!" ++ String.ofList cs ++ "!"

/-- A tag, from its sign on. -/
def readTag : Reading Token := do
  let c ← peekAt 1
  let tag ← (do
    if c == '<' then
      skip 2
      let suffix ← tagSuffix
      require ((← peek) == '>')
      skip 1
      return Token.tag none suffix
    else if isBlankOrEnd c then
      skip 1
      return Token.tag none "!"
    else
      let word := ((← get).rest.drop 1).takeWhile fun ch => !isSpaceOrEnd ch
      let handle ← (if word.contains '!' then tagHandle else do
        skip 1
        return "!")
      return Token.tag (some handle) (← tagSuffix))
  require (isSpaceOrEnd (← peek))
  return tag

/-- A number in a directive. -/
def directiveNumber : Reading Nat := do
  let ds ← takeWhile Char.isDigit
  require (!ds.isEmpty)
  return ds.foldl (fun n d => n * 10 + (d.toNat - '0'.toNat)) 0

/-- A directive, from its sign on, with the rest of its line. -/
def readDirective : Reading Token := do
  skip 1
  let n ← name
  require (isSpaceOrEnd (← peek))
  let token ← (do
    match n with
    | "YAML" =>
      let _ ← takeWhile (· == ' ')
      let major ← directiveNumber
      require ((← peek) == '.')
      skip 1
      let _ ← directiveNumber
      require (isSpaceOrEnd (← peek))
      return Token.version major
    | "TAG" =>
      let _ ← takeWhile (· == ' ')
      let handle ← tagHandle
      require ((← peek) == ' ')
      let _ ← takeWhile (· == ' ')
      let expansion ← tagSuffix
      require (isSpaceOrEnd (← peek))
      return Token.handle handle expansion
    | _ =>
      let _ ← takeWhile fun c => !isBreakOrEnd c
      return Token.unknownDirective)
  let _ ← takeWhile (· == ' ')
  if (← peek) == '#' then
    let _ ← takeWhile fun c => !isBreakOrEnd c
  require (isBreakOrEnd (← peek))
  let _ ← lineBreak
  return token

end Token

end Assay.Yaml
