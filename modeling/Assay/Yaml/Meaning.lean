import Assay.Function.Class
import Assay.Yaml.Node

/-!
# Values of YAML documents

The value that a document stands for (`Yaml.read`). Mappings may merge the entries of others,
which entries of their own override. A scalar whose tag asks for a form that its text does not
have is a fault of its own; all other flaws make the text malformed.
-/

namespace Assay.Yaml

open Text

/-- A reason for which a document has no value. -/
inductive Flaw
  | malformed
  | unreadable (fault : Fault)

namespace Meaning

/-! ## Scalars -/

/-- The number that digits write in a base up to sixteen. -/
def inBase? (base : Nat) (cs : List Char) : Option Int := do
  let digits ← cs.mapM Token.hexValue?
  if digits.isEmpty || digits.any (base ≤ ·) then none
  else some (digits.foldl (fun n d => n * base + d) 0 : Nat)

/-- The number that digits write. -/
def decimal? (cs : List Char) : Option Int :=
  if Numeral.maxDigits < cs.length then none else Numeral.integer? (String.ofList cs)

/-- The number of places in base sixty. -/
def baseSixty? (cs : List Char) : Option Int := do
  let numbers ← (Plain.places cs).mapM decimal?
  return numbers.foldl (fun n d => n * 60 + d) 0

/-- The integer that the text of a scalar writes. -/
def integer (s : String) : Except Fault Value :=
  let cs := s.toList.filter (· != '_')
  let magnitude := match Plain.unsigned cs with
    | ['0'] => some 0
    | '0' :: 'b' :: ds => inBase? 2 ds
    | '0' :: 'x' :: ds => inBase? 16 ds
    | '0' :: ds => inBase? 8 ds
    | ds => if ds.contains ':' then baseSixty? ds else decimal? ds
  match cs, magnitude with
  | [], _ => .error .missingIndex
  | _, none => .error .badValue
  | c :: _, some n => .ok (.int (if c == '-' then -n else n))

/-- The value of a numeral, not below zero, with a sign. -/
def signed (isNegative : Bool) : Option Numeral.Reading → Except Fault Value
  | some (.decimal _ digits exponent) => .ok (.float (Binary64.ofDecimal isNegative digits exponent))
  | some (.infinity _) => .ok (.float (.infinite isNegative))
  | some _ => .ok (.nan 0)
  | none => .error .badValue

/-- The sum of places in base sixty, the last of which may have a fraction. Each place is
rounded and added to those after it. -/
def sumPlaces (isNegative : Bool) (places : List (List Char)) : Except Fault Value := do
  let reading (cs : List Char) : Except Fault Value :=
    signed false (Numeral.floatReading? (String.ofList cs))
  match places.reverse with
  | [] => .error .badValue
  | last :: higher =>
    match ← reading last with
    | .float start =>
      let total ← (higher.zip (List.range higher.length)).foldlM (fun sum p => do
        match Numeral.integer? (String.ofList p.1) with
        | none => throw .badValue
        | some n =>
          match sum.add? (Binary64.ofInt (n * Nat.pow 60 (p.2 + 1))) with
          | some x => return x
          | none => throw .badValue) start
      return .float (if isNegative then Binary64.ofUnits (-total.units) true else total)
    | v => return v

/-- The float that the text of a scalar writes. -/
def float (s : String) : Except Fault Value :=
  let cs := (s.toList.filter (· != '_')).map Char.toLower
  let isNegative := cs.head? == some '-'
  let body := Plain.unsigned cs
  if cs.isEmpty then .error .missingIndex
  else if body == ".inf".toList then .ok (.float (.infinite isNegative))
  else if body == ".nan".toList then .ok (.nan 0)
  else if body.contains ':' then sumPlaces isNegative (Plain.places body)
  else signed isNegative (Numeral.floatReading? (String.ofList body))

/-- The number of microseconds that the digits of a fraction write. -/
def microseconds (fraction : List Char) : Nat :=
  natOfDigits ((fraction ++ List.replicate 6 '0').take 6)

/-- The moment of a day. -/
def momentOf? (date : Date) (hour minute second : Nat) (fraction : List Char)
    (offset : Option Int) : Option Moment := do
  let micro := microseconds fraction
  let offset := offset.map (· * 60000000)
  if (offset.getD 0).natAbs ≥ 24 * 3600000000 then none
  else if h : hour < 24 ∧ minute < 60 ∧ second < 60 ∧ micro < 1000000 then
    some ⟨date, ⟨hour, h.1⟩, ⟨minute, h.2.1⟩, ⟨second, h.2.2.1⟩, ⟨micro, h.2.2.2⟩, offset⟩
  else none

/-- The day or moment that the text of a scalar writes. -/
def time (s : String) : Except Fault Value :=
  match Plain.time? s.toList with
  | none => .error .missingAttribute
  | some t =>
    match Date.ofNumbers? t.year t.month t.day, t.clock with
    | none, _ => .error .badValue
    | some d, none => .ok (.date d)
    | some d, some (hour, minute, second, fraction) =>
      match momentOf? d hour minute second fraction t.offset with
      | some m => .ok (.moment m)
      | none => .error .badValue

/-- The value of a scalar. -/
def scalar (tag : Tag) (s : String) : Except Flaw Value :=
  let known : Except Fault Value → Except Flaw Value
    | .ok v => .ok v
    | .error f => .error (.unreadable f)
  match tag with
  | .text => .ok (.str s)
  | .null => .ok .null
  | .truth =>
    match Plain.truth? (Text.lower s) with
    | some b => .ok (.bool b)
    | none => .error (.unreadable (.missingKey (.str s)))
  | .integer => known (integer s)
  | .float => known (float s)
  | .time => known (time s)
  | _ => .error .malformed

/-! ## Collections -/

/-- Put one entry before the others. A key has to be hashable. -/
def withEntry (key value : Value) (others : Entries × Entries) :
    Except Flaw (Entries × Entries) :=
  if key.isHashable then .ok (others.1, (key, value) :: others.2) else .error .malformed

mutual

/-- The value of a node. Merged entries come first, and later entries override them. -/
def value : Node → Except Flaw Value
  | .scalar tag s => scalar tag s
  | .sequence tag items =>
    if tag == .sequence then .list <$> values items else .error .malformed
  | .mapping tag entries =>
    if tag != .mapping then .error .malformed
    else do
      let (merged, own) ← splitEntries entries
      return .dict (Entries.ofList (merged ++ own))
termination_by structural x => x

/-- The values of nodes. -/
def values : List Node → Except Flaw (List Value)
  | [] => .ok []
  | n :: ns => do
    let v ← value n
    return v :: (← values ns)
termination_by structural x => x

/-- The entries that a mapping merges, and its own. -/
def splitEntries : List (Node × Node) → Except Flaw (Entries × Entries)
  | [] => .ok ([], [])
  | (.scalar .merge _, source) :: rest => do
    let found ← mergedEntries source
    let (merged, own) ← splitEntries rest
    return (found ++ merged, own)
  | (.scalar .standIn s, v) :: rest => do
    let v ← value v
    withEntry (.str s) v (← splitEntries rest)
  | (k, v) :: rest => do
    let k ← value k
    let v ← value v
    withEntry k v (← splitEntries rest)
termination_by structural x => x

/-- The entries that are merged from a mapping, or from several, the first of which prevails. -/
def mergedEntries : Node → Except Flaw Entries
  | .scalar .. => .error .malformed
  | .mapping _ entries => do
    let (merged, own) ← splitEntries entries
    return Entries.ofList (merged ++ own)
  | .sequence _ items => mergedFromAll items
termination_by structural x => x

/-- The entries that are merged from several mappings. -/
def mergedFromAll : List Node → Except Flaw Entries
  | [] => .ok []
  | .mapping _ entries :: rest => do
    let (merged, own) ← splitEntries entries
    return (← mergedFromAll rest) ++ Entries.ofList (merged ++ own)
  | _ :: _ => .error .malformed
termination_by structural x => x

end

end Meaning

/-- The value of the only document in a text; null if there is none. -/
def read (s : String) : Except Flaw Value :=
  match Node.ofText? s with
  | none => .error .malformed
  | some none => .ok .null
  | some (some root) => Meaning.value root

end Assay.Yaml
