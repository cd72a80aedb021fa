import Assay.Yaml.Lexer
import Assay.Yaml.Plain

/-!
# From tokens to nodes

A document is a tree of scalars, sequences and mappings, each with a tag (`Node`). A node may
be given a name and stand again where the name is used. A text that holds more than one document
is refused (`Node.ofText?`).
-/

namespace Assay.Yaml

/-- A node of a document. -/
inductive Node
  | scalar (tag : Tag) (text : String)
  | sequence (tag : Tag) (items : List Node)
  | mapping (tag : Tag) (entries : List (Node × Node))
  deriving Inhabited

namespace Node

/-- The tokens that are left, the nodes that have names, and the handles of tags. A node has its
name before it is complete. -/
structure State where
  tokens : List Token
  named : List (String × Option Node) := []
  handles : List (String × String) := []
  deriving Inhabited

/-- Reading a part of the tokens, which may fail. -/
abbrev Parsing := StateT State Option

/-- The next token, which is not read yet. -/
def peek : Parsing (Option Token) := do return (← get).tokens.head?

/-- Read past a token. -/
def skip : Parsing Unit := modify fun s => { s with tokens := s.tokens.drop 1 }

/-- Read past a token if it is the next one. -/
def skipIf (t : Token) : Parsing Bool := do
  if (← peek) == some t then
    skip
    return true
  else return false

/-- Read past a token that has to come. -/
def expect (t : Token) : Parsing Unit := do
  if !(← skipIf t) then failure

/-- The next token is one of several, or there is none. -/
def isAt (ts : List Token) : Parsing Bool := do
  match ← peek with
  | none => return true
  | some t => return ts.contains t

/-- The scalar that stands where nothing is written. -/
def empty : Node := scalar .null ""

/-- An anchor before a node. -/
def anchorToken : Parsing (Option String) := do
  match ← peek with
  | some (.anchor n) =>
    skip
    return some n
  | _ => return none

/-- A tag before a node, written in full. -/
def tagToken : Parsing (Option String) := do
  match ← peek with
  | some (.tag none suffix) =>
    skip
    return some suffix
  | some (.tag (some handle) suffix) =>
    skip
    match (← get).handles.lookup handle with
    | some expansion => return some (expansion ++ suffix)
    | none => failure
  | _ => return none

/-- The anchor and the tag before a node, in any order. -/
def properties : Parsing (Option String × Option String) := do
  match ← anchorToken with
  | some n => return (some n, ← tagToken)
  | none =>
    let tag ← tagToken
    return (← anchorToken, tag)

/-- The tag of a scalar. -/
def scalarTag (tag : Option String) (text : String) (isPlain : Bool) : Tag :=
  match tag with
  | none => if isPlain then Plain.tagOf text else .text
  | some "!" => Plain.tagOf text
  | some name => .ofName name

/-- The tag of a collection, which has one of its own. -/
def collectionTag (own : Tag) : Option String → Tag
  | none | some "!" => own
  | some name => .ofName name

/-- Give a node its name before it is complete. -/
def announce : Option String → Parsing Unit
  | none => pure ()
  | some n => do
    if ((← get).named.lookup n).isSome then failure
    modify fun s => { s with named := (n, none) :: s.named }

/-- Complete a node that may have a name. -/
def complete (name : Option String) (node : Node) : Parsing Node := do
  match name with
  | none => return node
  | some n =>
    modify fun s => { s with named := s.named.map fun e =>
      if e.1 == n then (n, some node) else e }
    return node

mutual

/-- A node, among block collections if `isBlock`; a sequence may stand without indentation of
its own if `isLoose`. Each step takes `fuel`. -/
def node (isBlock isLoose : Bool) : Nat → Parsing Node
  | 0 => failure
  | fuel + 1 => do
    if let some (.alias n) := ← peek then
      skip
      let some (some known) := (← get).named.lookup n | failure
      return known
    let (name, tag) ← properties
    announce name
    match ← peek with
    | some (.scalar text isPlain) =>
      skip
      complete name (scalar (scalarTag tag text isPlain) text)
    | some .flowSequenceStart =>
      skip
      let items ← flowSequence true fuel
      complete name (sequence (collectionTag .sequence tag) items)
    | some .flowMappingStart =>
      skip
      let entries ← flowMapping true fuel
      complete name (mapping (collectionTag .mapping tag) entries)
    | t =>
      if isLoose && t == some .blockEntry then
        let items ← looseSequence fuel
        complete name (sequence (collectionTag .sequence tag) items)
      else if isBlock && t == some .blockSequenceStart then
        skip
        let items ← blockSequence fuel
        complete name (sequence (collectionTag .sequence tag) items)
      else if isBlock && t == some .blockMappingStart then
        skip
        let entries ← blockMapping fuel
        complete name (mapping (collectionTag .mapping tag) entries)
      else if name.isSome || tag.isSome then complete name (scalar (scalarTag tag "" true) "")
      else failure

/-- A node, or nothing before one of some tokens. -/
def nodeUnless (ends : List Token) (isBlock isLoose : Bool) : Nat → Parsing Node
  | 0 => failure
  | fuel + 1 => do if ← isAt ends then return empty else node isBlock isLoose fuel

/-- The items of a block sequence. -/
def blockSequence : Nat → Parsing (List Node)
  | 0 => failure
  | fuel + 1 => do
    if ← skipIf .blockEntry then
      let item ← nodeUnless [.blockEntry, .blockEnd] true false fuel
      return item :: (← blockSequence fuel)
    else
      expect .blockEnd
      return []

/-- The items of a sequence that is not indented. -/
def looseSequence : Nat → Parsing (List Node)
  | 0 => failure
  | fuel + 1 => do
    if ← skipIf .blockEntry then
      let item ← nodeUnless [.blockEntry, .key, .value, .blockEnd] true false fuel
      return item :: (← looseSequence fuel)
    else return []

/-- The entries of a block mapping. -/
def blockMapping : Nat → Parsing (List (Node × Node))
  | 0 => failure
  | fuel + 1 => do
    if ← skipIf .key then
      let key ← nodeUnless [.key, .value, .blockEnd] true true fuel
      let value ← valueUnless [.key, .value, .blockEnd] true fuel
      return (key, value) :: (← blockMapping fuel)
    else
      expect .blockEnd
      return []

/-- The value after a key, or nothing. -/
def valueUnless (ends : List Token) (isBlock : Bool) : Nat → Parsing Node
  | 0 => failure
  | fuel + 1 => do
    if ← skipIf .value then nodeUnless ends isBlock isBlock fuel else return empty

/-- The items of a flow sequence, each a node or a mapping of a single key. -/
def flowSequence (isFirst : Bool) : Nat → Parsing (List Node)
  | 0 => failure
  | fuel + 1 => do
    if ← skipIf .flowSequenceEnd then return []
    if !isFirst then expect .flowEntry
    if ← skipIf .flowSequenceEnd then return []
    let item ← (do
      if ← skipIf .key then
        let ends := [Token.value, .flowEntry, .flowSequenceEnd]
        let key ← nodeUnless ends false false fuel
        let value ← valueUnless [.flowEntry, .flowSequenceEnd] false fuel
        return mapping .mapping [(key, value)]
      else node false false fuel)
    return item :: (← flowSequence false fuel)

/-- The entries of a flow mapping. -/
def flowMapping (isFirst : Bool) : Nat → Parsing (List (Node × Node))
  | 0 => failure
  | fuel + 1 => do
    if ← skipIf .flowMappingEnd then return []
    if !isFirst then expect .flowEntry
    if ← skipIf .flowMappingEnd then return []
    let entry ← (do
      if ← skipIf .key then
        let key ← nodeUnless [.value, .flowEntry, .flowMappingEnd] false false fuel
        return (key, ← valueUnless [.flowEntry, .flowMappingEnd] false fuel)
      else return (← node false false fuel, empty))
    return entry :: (← flowMapping false fuel)

end

/-! ## Documents -/

/-- The handles that every document has. -/
def commonHandles : List (String × String) := [("!", "!"), ("!!", "tag:yaml.org,2002:")]

/-- The directives before a document: at most one version, and one of each handle. -/
def directives : Nat → Bool → Parsing Unit
  | 0, _ => failure
  | fuel + 1, hasVersion => do
    match ← peek with
    | some (.version major) =>
      if hasVersion || major != 1 then failure
      skip
      directives fuel true
    | some (.handle name expansion) =>
      if ((← get).handles.lookup name).isSome then failure
      modify fun s => { s with handles := (name, expansion) :: s.handles }
      skip
      directives fuel hasVersion
    | some .unknownDirective =>
      skip
      directives fuel hasVersion
    | _ => modify fun s =>
      let more := commonHandles.filter fun h => (s.handles.lookup h.1).isNone
      { s with handles := s.handles ++ more }

/-- The ends of documents without content. -/
def strayEnds : Nat → Parsing Unit
  | 0 => pure ()
  | fuel + 1 => do
    if ← skipIf .documentEnd then strayEnds fuel

/-- The token starts what comes before a document. -/
def isPrologue : Token → Bool
  | .version _ | .handle .. | .unknownDirective | .documentStart => true
  | _ => false

/-- The only document of the tokens, if there is one. -/
def document : Parsing (Option Node) := do
  let size := (← get).tokens.length
  let fuel := 4 * size + 8
  match ← peek with
  | none => return none
  | some first =>
    let root ← (do
      if isPrologue first then
        directives (size + 1) false
        expect .documentStart
        match ← peek with
        | none => return empty
        | some t =>
          if isPrologue t || t == .documentEnd then return empty else node true false fuel
      else
        modify fun s => { s with handles := commonHandles }
        node true false fuel)
    strayEnds (size + 1)
    if (← peek).isSome then failure
    return some root

/-- The only document of a text, if it holds one. -/
def ofText? (s : String) : Option (Option Node) := do
  let tokens ← Lexer.tokens? s
  let (root, _) ← document.run { tokens }
  return root

end Node

end Assay.Yaml
