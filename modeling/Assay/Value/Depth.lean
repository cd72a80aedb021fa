import Assay.Value.Basic

/-!
# Depth of nesting

How deep containers are nested in a value (`Value.depth`), and schemas in a schema
(`Schema.depth`). Both bound the recursion of what walks along them.
-/

namespace Assay

namespace Value

mutual

/-- The depth of nested containers; other values have depth zero. -/
def depth : Value → Nat
  | list vs | tuple vs | set vs | frozenSet vs => depthAll vs + 1
  | dict es | view es => depthEntries es + 1
  | _ => 0
termination_by structural x => x

/-- The greatest depth in a list. -/
def depthAll : List Value → Nat
  | [] => 0
  | v :: vs => max (depth v) (depthAll vs)
termination_by structural x => x

/-- The greatest depth among keys and values. -/
def depthEntries : List (Value × Value) → Nat
  | [] => 0
  | (k, v) :: es => max (max (depth k) (depth v)) (depthEntries es)
termination_by structural x => x

end

end Value

namespace Schema

mutual

/-- The depth of nested schemas. What a lazy schema refers to does not count. -/
def depth : Schema Value → Nat
  | ⟨_, _, form, _, _, _⟩ => depthForm form + 1
termination_by structural x => x

/-- The greatest depth of the schemas in a form. -/
def depthForm : Form Value (Schema Value) → Nat
  | .object shape _ catchall => max (depthShape shape) (depthOption catchall)
  | .array e | .set e => depth e
  | .tuple items rest => max (depthAll items) (depthOption rest)
  | .record k v | .map k v => max (depth k) (depth v)
  | .union options | .discriminatedUnion options _ _ => depthAll options
  | .intersection l r => max (depth l) (depth r)
  | .optional s | .nullable s | .readonly s | .promise s => depth s
  | .default s _ | .prefault s _ | .catching s _ => depth s
  | .pipe s t => max (depth s) (depth t)
  | _ => 0
termination_by structural x => x

/-- The greatest depth in a shape. -/
def depthShape : List (Value × Schema Value) → Nat
  | [] => 0
  | (_, s) :: rest => max (depth s) (depthShape rest)
termination_by structural x => x

/-- The greatest depth in a list. -/
def depthAll : List (Schema Value) → Nat
  | [] => 0
  | s :: rest => max (depth s) (depthAll rest)
termination_by structural x => x

/-- The depth of a schema that may be absent. -/
def depthOption : Option (Schema Value) → Nat
  | none => 0
  | some s => depth s
termination_by structural x => x

end

end Schema

end Assay
