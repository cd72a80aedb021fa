import Assay.Document.Json
import Assay.Schema.OfDefinition
import Assay.Yaml.Meaning

/-!
# Definitions in files

A file holds a definition as JSON or YAML, as the ending of its name tells (`SourceFile.format?`).
Its text is UTF-8 whose lines may end in any of the usual ways, and it has to hold a mapping
(`loadSchema`).
-/

namespace Assay

/-- A file to load a definition from. -/
structure SourceFile where
  /-- How messages name it. -/
  path : String
  name : String
  /-- Its content, if it can be read. -/
  content : Option ByteArray

/-- The formats of files. -/
inductive FileFormat
  | yaml
  | json
  deriving DecidableEq, Inhabited

namespace SourceFile

/-- The ending of the name in lower case: what follows the last point, with it, unless the point
is the first or last character. -/
def ending (f : SourceFile) : String :=
  let backwards := f.name.toList.reverse
  let tail := backwards.takeWhile (· != '.')
  let stem := backwards.drop (tail.length + 1)
  if tail.isEmpty || stem.isEmpty then ""
  else Text.lower (String.ofList ('.' :: tail.reverse))

/-- The format that the ending tells. -/
def format? (f : SourceFile) : Option FileFormat :=
  match f.ending with
  | ".yaml" | ".yml" => some .yaml
  | ".json" => some .json
  | _ => none

/-- The line ends of a text as line feeds. -/
def plainLines : List Char → List Char
  | '\r' :: '\n' :: cs => '\n' :: plainLines cs
  | '\r' :: cs => '\n' :: plainLines cs
  | c :: cs => c :: plainLines cs
  | [] => []

/-- The text of a content. -/
def textOf (content : ByteArray) : Except Fault String :=
  match String.fromUTF8? content with
  | some s => .ok (String.ofList (plainLines s.toList))
  | none => .error .badEncoding

/-- The value of a JSON text. -/
def readJson (f : SourceFile) (s : String) : Except Fault Value :=
  match JsonText.read s with
  | .ok v => .ok v
  | .error .tooLong => .error .badValue
  | .error (.malformed problem place) =>
    .error (.definition (.fileJson f.path (JsonText.explain s.toList problem place)))

/-- The value of a YAML text. -/
def readYaml (f : SourceFile) (s : String) : Except Fault Value :=
  match Yaml.read s with
  | .ok v => .ok v
  | .error .malformed => .error (.definition (.fileYaml f.path))
  | .error (.unreadable fault) => .error fault

/-- The value that a file holds. -/
def read (f : SourceFile) : Except Fault Value :=
  match f.content, f.format? with
  | none, _ => .error (.definition (.fileUnreadable f.path))
  | some _, none => .error (.definition (.fileFormat f.ending f.path))
  | some content, some .yaml => do f.readYaml (← textOf content)
  | some content, some .json => do f.readJson (← textOf content)

end SourceFile

/-- Make the schema that a file describes. -/
def loadSchema (f : SourceFile) (strict : Bool) : Run (Schema Value) := do
  match ← Run.lift f.read with
  | .dict entries => buildSchema (.dict entries) strict
  | _ => Run.refuse (.fileNotMapping f.path)

end Assay
