import Assay.Value.Equality

/-!
# Order of values

Numbers, texts, byte strings, days, moments, lists, tuples and sets have an order among their
own kind; sets are ordered by inclusion, and a NaN is neither before nor after any number.
Values of different kinds have none, which is `none` here.
-/

namespace Assay.Value

/-- Order of numbers of any two types. -/
def numberBefore? (orEqual : Bool) : Value → Value → Option Bool
  | nan _, w => if (units? w).isSome || w matches .nan _ then some false else none
  | v, nan _ => if (units? v).isSome then some false else none
  | float x, float y => some (x.lt y || (orEqual && x.eq y))
  | float x, w => (units? w).map fun m =>
      if x.isFinite then decide (x.units < m) || (orEqual && x.units == m) else x.isNegative
  | v, float y => (units? v).map fun n =>
      if y.isFinite then decide (n < y.units) || (orEqual && n == y.units) else !y.isNegative
  | v, w => do
    let n ← whole? v
    let m ← whole? w
    return decide (n < m) || (orEqual && n == m)

/-- Byte strings are ordered like words in a dictionary. -/
def bytesBefore (orEqual : Bool) : List UInt8 → List UInt8 → Bool
  | [], [] => orEqual
  | [], _ :: _ => true
  | _ :: _, [] => false
  | a :: as, b :: bs => if a == b then bytesBefore orEqual as bs else a < b

mutual

/-- The first value comes before the second, or may equal it; nothing when they have no order. -/
def before? (orEqual : Bool) : Value → Value → Option Bool
  | str a, str b => some (decide (a < b) || (orEqual && a == b))
  | bytes a _, bytes b _ => some (bytesBefore orEqual a b)
  | date a, date b => some (a.lt b || (orEqual && a == b))
  | moment a, moment b =>
    (a.lt? b).map fun before => before || (orEqual && a.eq b)
  | list a, list b => listBefore? orEqual a b
  | tuple a, tuple b => listBefore? orEqual a b
  | set a, set b | set a, frozenSet b | frozenSet a, set b | frozenSet a, frozenSet b =>
    some (membersFound a b && (orEqual || a.length < b.length))
  | v, w => numberBefore? orEqual v w
termination_by structural x => x

/-- Lists are ordered by the first place where they differ. -/
def listBefore? (orEqual : Bool) : List Value → List Value → Option Bool
  | [], [] => some orEqual
  | [], _ :: _ => some true
  | _ :: _, [] => some false
  | v :: vs, w :: ws => if isFound v w then listBefore? orEqual vs ws else before? orEqual v w
termination_by structural x => x

end

/-- Put a value into an ascending list, after its equals. -/
def insertSorted? (v : Value) : List Value → Option (List Value)
  | [] => some [v]
  | w :: ws => do
    if ← before? false v w then return v :: w :: ws else return w :: (← insertSorted? v ws)

/-- The values in ascending order, if they have one. -/
def sorted? (vs : List Value) : Option (List Value) :=
  vs.foldlM (fun acc v => insertSorted? v acc) []

/-- The room of a set with a number of members. -/
def room (count : Nat) : Int := if count ≤ 4 then 8 else 32

/-- The place of a whole number in a set with some room. -/
def placeIn (room : Int) (v : Value) : Option Int :=
  v.whole?.map fun n => (if n == -1 then -2 else n) % room

/-- The members of a set as they are listed: whole numbers by their places in the room of the
set, unless two of them share a place; all others in the order in which they were added. -/
def listed (members : List Value) : List Value :=
  let size := room members.length
  let placed := members.filterMap fun v => (placeIn size v).map fun i => (i, v)
  if placed.length == members.length && (placed.map (·.1)).eraseDups.length == members.length then
    (placed.mergeSort fun a b => a.1 ≤ b.1).map (·.2)
  else members

/-- The members of a set of some values. -/
def membersOf (vs : List Value) : List Value := listed (distinct vs)

/-- The values that a container yields, one by one. -/
def iterate? : Value → Option (List Value)
  | str s => some (s.toList.map fun c => str (String.singleton c))
  | bytes data _ => some (data.map fun b => int b.toNat)
  | list vs | tuple vs | set vs | frozenSet vs => some vs
  | dict es | view es => some (es.map (·.1))
  | cls (.enumeration c) => some (c.members.map fun m => member c m.1 m.2)
  | _ => none

end Assay.Value
