import Assay.Number.Numeral
import Assay.Session.Basic

/-!
# Classes as functions

A class can be called to convert a value to it, or, without an argument, to make the value that
it starts from. Classes also have instances (`ClassRef.holds`), a truth value being an integer
and a moment being a day.
-/

namespace Assay

namespace Numeral

/-- The integer that a text writes: a sign and digits of any script, single underscores between
digits, white space around. -/
def integer? (s : String) : Option Int :=
  let (negative, cs) := sign (Text.trimList Text.isBlank (asciiDigits s.toList))
  match dropUnderscores ' ' cs with
  | none => none
  | some ds =>
    if ds.isEmpty || !ds.all Text.isAsciiDigit then none
    else some (if negative then -(Text.natOfDigits ds : Int) else Text.natOfDigits ds)

/-- A text of more digits than this is not read as an integer. -/
def maxDigits : Nat := 4300

end Numeral

/-- The argument of a call that has just one. -/
def Call.single? : Call Value → Option Value
  | value v | replacing v => some v
  | wording i => some (.issue i)
  | _ => none

namespace ClassRef

/-- The value is an instance of the class. -/
def holds : ClassRef Value → Value → Bool
  | .builtin .int, .int _ | .builtin .int, .bool _ => true
  | .builtin .str, .str _ => true
  | .builtin .float, .float _ | .builtin .float, .nan _ => true
  | .builtin .bool, .bool _ => true
  | .builtin .list, .list _ => true
  | .builtin .dict, .dict _ => true
  | .builtin .tuple, .tuple _ => true
  | .builtin .set, .set _ => true
  | .builtin .bytes, .bytes _ isMutable => !isMutable
  | .object name, .object _ other => name == other
  | .enumeration c, .member d .. => c.ref == d.ref
  | _, _ => false

open Run in
/-- The value of a numeral as a float. -/
def floatOf (s : String) : Run Value := do
  match Numeral.floatReading? s with
  | some (.decimal negative digits exponent) =>
    return .float (Binary64.ofDecimal negative digits exponent)
  | some (.infinity negative) => return .float (.infinite negative)
  | some _ => return .nan (← freshRef)
  | none => throw .badValue

/-- An integer from a value. -/
def toInt : Value → Run Value
  | .bool b => return .int b.toInt
  | .int n => return .int n
  | .float x => if x.isFinite then return .int x.toInt else throw .overflow
  | .nan _ => throw .badValue
  | .str s => Run.ofOption .badValue ((Numeral.integer? s).map .int)
  | .bytes data _ =>
    Run.ofOption .badValue ((Numeral.integer? (String.ofList (data.map fun b => Char.ofNat b.toNat))).map .int)
  | _ => throw .unsupported

/-- A float from a value. -/
def toFloat : Value → Run Value
  | .float x => return .float x
  | .nan r => return .nan r
  | .str s => floatOf s
  | .bytes data _ => floatOf (String.ofList (data.map fun b => Char.ofNat b.toNat))
  | v =>
    match v.whole? with
    | some n =>
      let x := Binary64.ofInt n
      if x.isFinite then return .float x else throw .overflow
    | none => throw .unsupported

/-- The entries that pairs make up. -/
def pairs? : List Value → Except Fault Entries
  | [] => .ok []
  | v :: vs =>
    match v.iterate? with
    | some [k, w] => if k.isHashable then ((k, w) :: ·) <$> pairs? vs else .error .unsupported
    | some _ => .error .badValue
    | none => .error .unsupported

/-- A mapping from a mapping or from pairs. -/
def toDict (v : Value) : Except Fault Value :=
  match v.entries? with
  | some es => .ok (.dict es)
  | none =>
    match v.iterate? with
    | some vs => (fun es => .dict (Entries.ofList es)) <$> pairs? vs
    | none => .error .unsupported

/-- A byte string from a size, a byte string, or numbers below 256. -/
def toBytes : Value → Except Fault Value
  | .bytes data _ => .ok (.bytes data false)
  | .int n => if n < 0 then .error .badValue else .ok (.bytes (List.replicate n.toNat 0) false)
  | .bool b => .ok (.bytes (List.replicate b.toNat 0) false)
  | .str _ => .error .unsupported
  | v =>
    match v.iterate? with
    | none => .error .unsupported
    | some vs => do
      let bytes ← vs.mapM fun w =>
        match w.whole? with
        | some n => if 0 ≤ n && n < 256 then .ok (UInt8.ofNat n.toNat) else .error .badValue
        | none => .error .unsupported
      .ok (.bytes bytes false)

/-- The value of a class for one argument. -/
def convert (c : ClassRef Value) (v : Value) : Run Value :=
  match c with
  | .builtin .int => toInt v
  | .builtin .str => return .str v.text
  | .builtin .float => toFloat v
  | .builtin .bool => return .bool v.truthy
  | .builtin .list => Run.ofOption .unsupported (v.iterate?.map .list)
  | .builtin .tuple => Run.ofOption .unsupported (v.iterate?.map .tuple)
  | .builtin .set =>
    match v.iterate? with
    | some vs => if Value.areHashable vs then return .set (Value.membersOf vs) else throw .unsupported
    | none => throw .unsupported
  | .builtin .dict => Run.lift (toDict v)
  | .builtin .bytes => Run.lift (toBytes v)
  | .object _ => throw .unsupported
  | .enumeration cls =>
    match v with
    | .member d .. => if d.ref == cls.ref then return v else throw .badValue
    | _ =>
      match cls.members.find? fun m => m.2.equals v with
      | some m => return .member cls m.1 m.2
      | none => throw .badValue

/-- The value that a class starts from. -/
def start : ClassRef Value → Run Value
  | .builtin .int => return .int 0
  | .builtin .str => return .str ""
  | .builtin .float => return .float (Binary64.zero false)
  | .builtin .bool => return .bool false
  | .builtin .list => return .list []
  | .builtin .dict => return .dict []
  | .builtin .tuple => return .tuple []
  | .builtin .set => return .set []
  | .builtin .bytes => return .bytes [] false
  | .object name => return .object (← Run.freshRef) name
  | .enumeration _ => throw .unsupported

/-- Call a class. -/
def call (c : ClassRef Value) (call : Call Value) : Run Value :=
  match call, call.single? with
  | .nothing, _ => c.start
  | _, some v => c.convert v
  | _, none => throw .unsupported

end ClassRef

end Assay
