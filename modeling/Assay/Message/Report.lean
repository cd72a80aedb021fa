import Assay.Message.Json
import Assay.Schema.Fault

/-!
# Reports

Final issues arranged for display: grouped by the first key of their paths (`Report.flatten`),
nested along their paths (`Report.tree`), or as lines of text with the shallowest first
(`Report.prettify`). Only paths and messages matter, but a tree shows the issues that a union,
key or element issue wraps in place of the wrapping one.
-/

namespace Assay

/-- The message of an issue, or an empty text. -/
def Issue.shownMessage (i : Issue Value) : Value :=
  if i.message.truthy then i.message else .str ""

/-- Messages at a place, with those at the positions and under the names inside it. Positions
without messages are empty. -/
inductive MessageTree
  | node (errors : List Value) (items : List (Option MessageTree))
      (properties : List (Value × MessageTree)) (itemsFirst : Bool)

namespace MessageTree

instance : Inhabited MessageTree := ⟨node [] [] [] false⟩

/-- A tree without messages. -/
def empty : MessageTree := node [] [] [] false

/-- The place that a position means among `size` items: negative ones count from the end. -/
def index? (size : Nat) (n : Int) : Option Nat :=
  if 0 ≤ n then some n.toNat
  else if 0 ≤ size + n then some (size + n).toNat
  else none

/-- The items with a tree at a position, which are extended up to it if need be. -/
def setItem (items : List (Option MessageTree)) (i : Nat) (t : MessageTree) :
    List (Option MessageTree) :=
  (items ++ List.replicate (i + 1 - items.length) none).set i (some t)

/-- The properties with a tree under a name. -/
def setProperty (key : Value) (t : MessageTree) :
    List (Value × MessageTree) → List (Value × MessageTree)
  | [] => [(key, t)]
  | p :: rest => if p.1.isFound key then (p.1, t) :: rest else p :: setProperty key t rest

/-- Add a message at a path. -/
def place : MessageTree → List Value → Value → Except Fault MessageTree
  | node errors items properties itemsFirst, [], message =>
    .ok (node (errors ++ [message]) items properties itemsFirst)
  | node errors items properties itemsFirst, key :: rest, message =>
    match Path.position? key with
    | some n =>
      match index? items.length n with
      | none => .error .missingIndex
      | some i => do
        let child ← place ((items[i]?.bind id).getD empty) rest message
        let first := if items.isEmpty then properties.isEmpty else itemsFirst
        .ok (node errors (setItem items i child) properties first)
    | none =>
      if !key.isHashable then .error .unsupported
      else do
        let known := (properties.find? fun p => p.1.isFound key).map (·.2)
        let child ← place (known.getD empty) rest message
        .ok (node errors items (setProperty key child properties) itemsFirst)
termination_by structural _ path => path

mutual

/-- The tree as nested mappings. -/
def toValue : MessageTree → Value
  | node errors items properties itemsFirst =>
    let items := if items.isEmpty then [] else [(Value.str "items", .list (itemValues items))]
    let properties :=
      if properties.isEmpty then []
      else [(Value.str "properties", .dict (propertyValues properties))]
    .dict ((.str "errors", .list errors)
      :: if itemsFirst then items ++ properties else properties ++ items)
termination_by structural x => x

/-- The positions as values. -/
def itemValues : List (Option MessageTree) → List Value
  | [] => []
  | none :: rest => .null :: itemValues rest
  | some t :: rest => t.toValue :: itemValues rest
termination_by structural x => x

/-- The names with their trees as values. -/
def propertyValues : List (Value × MessageTree) → List (Value × Value)
  | [] => []
  | (k, t) :: rest => (k, t.toValue) :: propertyValues rest
termination_by structural x => x

end

end MessageTree

namespace Report

/-- An issue that wraps no others, with its path from the root. -/
abbrev Leaf := List Value × Value

mutual

/-- The innermost issues of an issue, in order. -/
def leaves (start : List Value) : Issue Value → List Leaf
  | ⟨path, message, _, _, detail⟩ =>
    detailLeaves (start ++ path) (if message.truthy then message else .str "") detail
termination_by structural x => x

/-- The innermost issues of a detail; the issue itself if it wraps none. -/
def detailLeaves (path : List Value) (message : Value) :
    Detail Value (Issue Value) → List Leaf
  | .invalidUnion groups _ _ =>
    if groups.isEmpty then [(path, message)] else groupLeaves path groups
  | .invalidKey _ issues =>
    if issues.isEmpty then [(path, message)] else allLeaves path issues
  | .invalidElement _ _ issues =>
    if issues.isEmpty then [(path, message)] else allLeaves path issues
  | _ => [(path, message)]
termination_by structural x => x

/-- The innermost issues of a list. -/
def allLeaves (start : List Value) : List (Issue Value) → List Leaf
  | [] => []
  | i :: is => leaves start i ++ allLeaves start is
termination_by structural x => x

/-- The innermost issues of groups. -/
def groupLeaves (start : List Value) : List (List (Issue Value)) → List Leaf
  | [] => []
  | g :: gs => allLeaves start g ++ groupLeaves start gs
termination_by structural x => x

end

/-- The messages nested along their paths. -/
def treeOf (issues : List (Issue Value)) : Except Fault MessageTree :=
  (allLeaves [] issues).foldlM (fun t leaf => t.place leaf.1 leaf.2) .empty

/-- The messages nested along their paths, as nested mappings. -/
def tree (issues : List (Issue Value)) : Except Fault Value :=
  MessageTree.toValue <$> treeOf issues

/-- Add a message under a key. -/
def addUnder (key message : Value) : List (Value × List Value) → List (Value × List Value)
  | [] => [(key, [message])]
  | e :: rest =>
    if e.1.isFound key then (e.1, e.2 ++ [message]) :: rest else e :: addUnder key message rest

/-- The messages of issues without a path, and those of the others by the first key. -/
structure Flattened where
  form : List Value := []
  fields : List (Value × List Value) := []

/-- Add the message of one issue. -/
def Flattened.add (f : Flattened) (i : Issue Value) : Except Fault Flattened :=
  match i.path with
  | [] => .ok { f with form := f.form ++ [i.shownMessage] }
  | key :: _ =>
    if key.isHashable then .ok { f with fields := addUnder key i.shownMessage f.fields }
    else .error .unsupported

/-- The messages grouped by the first key of their paths. -/
def flatten (issues : List (Issue Value)) : Except Fault Value := do
  let f ← issues.foldlM Flattened.add {}
  return .dict [(.str "form_errors", .list f.form),
    (.str "field_errors", .dict (f.fields.map fun e => (e.1, .list e.2)))]

/-- The lines for one issue. -/
def lines (i : Issue Value) : Except Fault (List String) :=
  let head := "✖ " ++ i.shownMessage.text
  if i.path.isEmpty then .ok [head]
  else match Path.text? i.path with
    | some place => .ok [head, "  → at " ++ place]
    | none => .error .unsupported

/-- The issues as lines of text, the shallowest first. -/
def prettify (issues : List (Issue Value)) : Except Fault String := do
  let ordered := issues.mergeSort fun a b => a.path.length ≤ b.path.length
  return "\n".intercalate (← ordered.mapM lines).flatten

/-- The descriptions of the issues. -/
def toValue (issues : List (Issue Value)) : Value :=
  .list (issues.map Issue.describe)

/-- The descriptions of the issues as JSON text. -/
def toJson (issues : List (Issue Value)) : String :=
  (toValue issues).plain.toJson

end Report

end Assay
