import Assay.Value.Naming

/-!
# Equality of values

Two values are equal when they are the same number, the same text, containers of equal members,
or one object. Numbers compare across their types, so `True`, `1` and `1.0` are equal; mappings
and sets compare without regard to order or mutability. Inside containers a NaN is found again
by its identity (`Value.isFound`), while on its own it equals nothing (`Value.equals`).
-/

namespace Assay

namespace Value

/-- The whole number that a truth value or integer is. -/
def whole? : Value → Option Int
  | bool b => some b.toInt
  | int n => some n
  | _ => none

/-- A number in binary64 units, for truth values, integers and floats. -/
def units? : Value → Option Int
  | bool b => some (b.toInt * Binary64.unitsPerOne)
  | int n => some (n * Binary64.unitsPerOne)
  | float x => some x.units
  | _ => none

/-- Equality of numbers of any two types. An infinity is equal to itself alone. -/
def numberEquals : Value → Value → Bool
  | float x, float y => x.eq y
  | float x, w => x.isFinite && w.units? == some x.units
  | v, float y => y.isFinite && v.units? == some y.units
  | v, w => v.whole?.isSome && v.whole? == w.whole?

mutual

/-- The two values are one member of a container: they are equal, or the same NaN. -/
def isFound : Value → Value → Bool
  | missing, missing => true
  | null, null => true
  | nan a, nan b => a == b
  | str a, str b => a == b
  | bytes a _, bytes b _ => a == b
  | date a, date b => a == b
  | moment a, moment b => a.eq b
  | list a, list b => areFound a b
  | tuple a, tuple b => areFound a b
  | dict a, dict b | dict a, view b | view a, dict b | view a, view b =>
    a.length == b.length && entriesFound a b
  | set a, set b | set a, frozenSet b | frozenSet a, set b | frozenSet a, frozenSet b =>
    a.length == b.length && membersFound a b
  | object a _, object b _ => a == b
  | cls (.builtin a), cls (.builtin b) => a == b
  | cls (.object a), cls (.object b) => a == b
  | cls (.enumeration a), cls (.enumeration b) => a.ref == b.ref
  | member c a _, member d b _ => c.ref == d.ref && a == b
  | pending a _, pending b _ => a == b
  | callable f, callable g => f.ref == g.ref
  | builtin a, builtin b => sameBuiltin a b
  | issue i, issue j => issueFound i j
  | check c, check d => c.id == d.id
  | schema s, schema t => s.id == t.id
  | v, w => numberEquals v w
termination_by structural x => x

/-- The two built-in functions are one. -/
def sameBuiltin : Builtin Value → Builtin Value → Bool
  | .evaluateNode, .evaluateNode => true
  | .english, .english => true
  | .trim, .trim => true
  | .toLower, .toLower => true
  | .toUpper, .toUpper => true
  | .instanceOf c, .instanceOf d => isFound c d
  | .definition n a, .definition m b => n == m && isFound a b
  | _, _ => false
termination_by structural x => x

/-- The lists agree place by place. -/
def areFound : List Value → List Value → Bool
  | [], [] => true
  | v :: vs, w :: ws => isFound v w && areFound vs ws
  | _, _ => false
termination_by structural x => x

/-- Every entry of the first has its equal in the second. -/
def entriesFound : List (Value × Value) → List (Value × Value) → Bool
  | [], _ => true
  | (k, v) :: es, fs => fs.any (fun f => isFound k f.1 && isFound v f.2) && entriesFound es fs
termination_by structural x => x

/-- Every member of the first has its equal in the second. -/
def membersFound : List Value → List Value → Bool
  | [], _ => true
  | v :: vs, ws => ws.any (fun w => isFound v w) && membersFound vs ws
termination_by structural x => x

/-- Issues are equal when they say the same at the same place; the offending input, the
reporter and custom parameters do not count. -/
def issueFound : Issue Value → Issue Value → Bool
  | ⟨p, m, _, _, d⟩, ⟨q, n, _, _, e⟩ => areFound p q && isFound m n && detailFound d e
termination_by structural x => x

/-- The details agree field by field. -/
def detailFound : Detail Value (Issue Value) → Detail Value (Issue Value) → Bool
  | .unspecified, .unspecified => true
  | .invalidType a b, .invalidType a' b' => isFound a a' && isFound b b'
  | .tooBig a b c d, .tooBig a' b' c' d' =>
    isFound a a' && isFound b b' && isFound c c' && isFound d d'
  | .tooSmall a b c d, .tooSmall a' b' c' d' =>
    isFound a a' && isFound b b' && isFound c c' && isFound d d'
  | .invalidFormat a b c d e, .invalidFormat a' b' c' d' e' =>
    isFound a a' && isFound b b' && isFound c c' && isFound d d' && isFound e e'
  | .notMultipleOf a, .notMultipleOf a' => isFound a a'
  | .unrecognizedKeys a, .unrecognizedKeys a' => isFound a a'
  | .invalidUnion gs a b, .invalidUnion gs' a' b' =>
    groupsFound gs gs' && isFound a a' && isFound b b'
  | .invalidKey a is, .invalidKey a' is' => isFound a a' && issuesFound is is'
  | .invalidElement a k is, .invalidElement a' k' is' =>
    isFound a a' && isFound k k' && issuesFound is is'
  | .invalidValue a, .invalidValue a' => isFound a a'
  | .custom _, .custom _ => true
  | _, _ => false
termination_by structural x => x

/-- The lists of issues agree place by place. -/
def issuesFound : List (Issue Value) → List (Issue Value) → Bool
  | [], [] => true
  | i :: is, j :: js => issueFound i j && issuesFound is js
  | _, _ => false
termination_by structural x => x

/-- The groups of issues agree place by place. -/
def groupsFound : List (List (Issue Value)) → List (List (Issue Value)) → Bool
  | [], [] => true
  | i :: is, j :: js => issuesFound i j && groupsFound is js
  | _, _ => false
termination_by structural x => x

end

/-- Equality of two values as they stand: a NaN equals nothing. -/
def equals : Value → Value → Bool
  | nan _, _ => false
  | v, w => isFound v w

/-- The two values are one object. Small integers and short texts exist once; other values
without an identity of their own are made anew each time. -/
def isIdentical (v w : Value) : Bool :=
  match v, w with
  | int a, int b => a == b && -5 ≤ a && a ≤ 256
  | str a, str b => a == b && a.length ≤ 1 && a.toList.all (·.toNat < 256)
  | bytes a false, bytes b false => a == b && a.length ≤ 1
  | tuple [], tuple [] => true
  | int _, _ | str _, _ | bytes .., _ | tuple _, _ | float _, _ | date _, _ | moment _, _
  | list _, _ | dict _, _ | view _, _ | set _, _ | frozenSet _, _ | issue _, _ => false
  | bool _, int _ | bool _, float _ => false
  | v, w => isFound v w

/-- Equality that does not confuse truth values with zero and one, nor null with anything. -/
def same : Value → Value → Bool
  | bool a, bool b => a == b
  | bool _, _ | _, bool _ => false
  | null, null => true
  | null, _ | _, null => false
  | v, w => equals v w

/-- The list holds the value. -/
def isIn (v : Value) (vs : List Value) : Bool :=
  vs.any fun w => isFound w v

mutual

/-- The value can be a key of a mapping or a member of a set. -/
def isHashable : Value → Bool
  | list _ | dict _ | view _ | set _ => false
  | bytes _ isMutable => !isMutable
  | tuple vs => areHashable vs
  | issue ⟨p, m, _, _, d⟩ => areHashable p && isHashable m && detailHashable d
  | _ => true
termination_by structural x => x

/-- All the values can be keys. -/
def areHashable : List Value → Bool
  | [] => true
  | v :: vs => isHashable v && areHashable vs
termination_by structural x => x

/-- All the fields that count for equality can be keys. -/
def detailHashable : Detail Value (Issue Value) → Bool
  | .unspecified | .custom _ => true
  | .invalidType a b => isHashable a && isHashable b
  | .tooBig a b c d | .tooSmall a b c d =>
    isHashable a && isHashable b && isHashable c && isHashable d
  | .invalidFormat a b c d e =>
    isHashable a && isHashable b && isHashable c && isHashable d && isHashable e
  | .notMultipleOf a | .unrecognizedKeys a | .invalidValue a => isHashable a
  | .invalidUnion gs a b => groupsHashable gs && isHashable a && isHashable b
  | .invalidKey a is => isHashable a && issuesHashable is
  | .invalidElement a k is => isHashable a && isHashable k && issuesHashable is
termination_by structural x => x

/-- All the issues can be keys. -/
def issuesHashable : List (Issue Value) → Bool
  | [] => true
  | ⟨p, m, _, _, d⟩ :: is =>
    areHashable p && isHashable m && detailHashable d && issuesHashable is
termination_by structural x => x

/-- All the issues of all the groups can be keys. -/
def groupsHashable : List (List (Issue Value)) → Bool
  | [] => true
  | g :: gs => issuesHashable g && groupsHashable gs
termination_by structural x => x

end

end Value

namespace Entries

/-- The value of a key. -/
def find? (es : Entries) (key : Value) : Option Value :=
  (List.find? (fun e => e.1.isFound key) es).map (·.2)

/-- The value of a key that is text. -/
def get? (es : Entries) (key : String) : Option Value :=
  find? es (.str key)

/-- There is an entry for the key. -/
def contains (es : Entries) (key : Value) : Bool :=
  (find? es key).isSome

/-- Set the value of a key: a known key stays as it is, in its place. -/
def insert (es : Entries) (key value : Value) : Entries :=
  match es with
  | [] => [(key, value)]
  | e :: rest => if e.1.isFound key then (e.1, value) :: rest else e :: insert rest key value

/-- The entries that remain of a list when equal keys are merged. -/
def ofList (es : List (Value × Value)) : Entries :=
  es.foldl (fun acc e => acc.insert e.1 e.2) []

/-- Drop the entry of a key. -/
def erase (es : Entries) (key : Value) : Entries :=
  List.filter (fun e => !e.1.isFound key) es

end Entries

namespace Value

/-- The members that remain of a list when equal ones are merged. -/
def distinct (vs : List Value) : List Value :=
  vs.foldl (fun acc v => if v.isIn acc then acc else acc ++ [v]) []

end Value

end Assay
