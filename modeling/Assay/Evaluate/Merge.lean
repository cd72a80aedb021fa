import Assay.Schema.Fault

/-!
# Merging values

The two outputs of an intersection are merged (`mergeValues`): equal values are one, mappings
are merged key by key and lists of one length place by place. Anything else cannot be merged,
and the path to it is told.
-/

namespace Assay

/-- The two values are one object or equal. -/
def Value.isOne (v w : Value) : Bool :=
  v.same w || (v matches .nan _ && v.isFound w)

/-- Items as a list or tuple, whichever the given value is. -/
def Value.sequenceLike (v : Value) (items : List Value) : Value :=
  match v with
  | .tuple _ => .tuple items
  | _ => .list items

/-- The fault of values that cannot be merged. -/
def unmergeable {α : Type} (path : List Value) : Except Fault α :=
  .error (.definition (.unmergeable path))

mutual

/-- Merge two values that stand at a path. -/
def mergeValues (path : List Value) (left : Value) : Value → Except Fault Value
  | .dict es =>
    if left.isOne (.dict es) then .ok left
    else match left.entries? with
      | some ls => Value.dict <$> mergeEntries path ls ls es
      | none => unmergeable path
  | .view es =>
    if left.isOne (.view es) then .ok left
    else match left.entries? with
      | some ls => Value.dict <$> mergeEntries path ls ls es
      | none => unmergeable path
  | .list vs =>
    if left.isOne (.list vs) then .ok left
    else match left.items? with
      | some ws =>
        if ws.length == vs.length then left.sequenceLike <$> mergeItems path 0 ws vs
        else unmergeable path
      | none => unmergeable path
  | .tuple vs =>
    if left.isOne (.tuple vs) then .ok left
    else match left.items? with
      | some ws =>
        if ws.length == vs.length then left.sequenceLike <$> mergeItems path 0 ws vs
        else unmergeable path
      | none => unmergeable path
  | right => if left.isOne right then .ok left else unmergeable path
termination_by structural x => x

/-- Merge the entries of a mapping, one after the other, into what is merged so far. -/
def mergeEntries (path : List Value) (left merged : Entries) :
    List (Value × Value) → Except Fault Entries
  | [] => .ok merged
  | (k, v) :: rest =>
    match left.find? k with
    | some w => do
      let m ← mergeValues (path ++ [k]) w v
      mergeEntries path left (merged.insert k m) rest
    | none => mergeEntries path left (merged.insert k v) rest
termination_by structural x => x

/-- Merge items place by place, from position `index` on. -/
def mergeItems (path : List Value) (index : Nat) :
    List Value → List Value → Except Fault (List Value)
  | w :: ws, v :: vs => do
    let first ← mergeValues (path ++ [.int index]) w v
    return first :: (← mergeItems path (index + 1) ws vs)
  | _, _ => .ok []
termination_by structural _ right => right

end

end Assay
