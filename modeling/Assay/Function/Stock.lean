import Assay.Function.Host
import Assay.Message.Field
import Assay.Message.Path
import Assay.Number.Shortest

/-!
# A stock of functions

Functions that a session can refer to by name: predicates and conversions of one value,
functions without an argument, callbacks that report issues, evaluators of further kinds, and
message providers (`Stock.host`).
-/

namespace Assay.Stock

open Run

/-- The number of arguments that a function of the stock takes. -/
def arity (f : Callable Value) : Nat :=
  if ["value", "counter", "var"].contains f.name then 0
  else if ["report", "to_int", "caught"].contains f.name then 2
  else if ["ev_even", "ev_fail"].contains f.name then 3
  else 1

/-- The functions of the stock that word messages. -/
def isProvider (f : Callable Value) : Bool :=
  ["p_const", "p_code", "p_only", "p_path", "p_input", "p_field"].contains f.name

/-- A captured argument. -/
def captured (f : Callable Value) (i : Nat) : Value := (f.captured[i]?).getD .null

/-- The value is before another. -/
def before (v w : Value) : Except Fault Value :=
  match v.before? false w with
  | some b => .ok (.bool b)
  | none => .error .unsupported

/-- The value is a multiple of two. A text takes the two into its one place for a value. -/
def isEven : Value → Except Fault Value
  | .float x => .ok (.bool x.isEven)
  | .nan _ => .ok (.bool false)
  | .str s => if s.contains '%' then .ok (.bool false) else .error .unsupported
  | .bytes data _ => if data.contains 37 then .ok (.bool false) else .error .unsupported
  | v =>
    match v.whole? with
    | some n => .ok (.bool (n % 2 == 0))
    | none => .error .unsupported

/-- The value twice over. -/
def double : Value → Except Fault Value
  | .float x => .ok (.float x.double)
  | .nan r => .ok (.nan r)
  | .str s => .ok (.str (s ++ s))
  | .bytes data isMutable => .ok (.bytes (data ++ data) isMutable)
  | .list vs => .ok (.list (vs ++ vs))
  | .tuple vs => .ok (.tuple (vs ++ vs))
  | v =>
    match v.whole? with
    | some n => .ok (.int (n * 2))
    | none => .error .unsupported

/-- One more than the value. -/
def increment : Value → Except Fault Value
  | .float x =>
    match x.add? (Binary64.ofInt 1) with
    | some y => .ok (.float y)
    | none => .error .unsupported
  | .nan r => .ok (.nan r)
  | v =>
    match v.whole? with
    | some n => .ok (.int (n + 1))
    | none => .error .unsupported

/-- The number of what is in the value. -/
def size (v : Value) : Except Fault Value :=
  match v.length? with
  | some n => .ok (.int n)
  | none => .error .unsupported

/-- The item at a position, counted from the end when negative. -/
def itemAt (vs : List Value) (key : Value) : Except Fault Value :=
  match key.whole? with
  | none => .error .unsupported
  | some n =>
    let i := if n < 0 then vs.length + n else n
    match if 0 ≤ i then vs[i.toNat]? else none with
    | some v => .ok v
    | none => .error .missingIndex

/-- What the value has at a key or position. -/
def lookup (v key : Value) : Except Fault Value :=
  match v with
  | .dict es | .view es =>
    if !key.isHashable then .error .unsupported
    else match Entries.find? es key with
    | some w => .ok w
    | none => .error (.missingKey key)
  | .list vs | .tuple vs => itemAt vs key
  | .str _ | .bytes .. => itemAt ((v.iterate?).getD []) key
  | .cls (.enumeration c) =>
    match key with
    | .str s =>
      match c.members.find? fun m => m.1 == ((c.aliases.lookup s).getD s) with
      | some m => .ok (.member c m.1 m.2)
      | none => .error (.missingKey key)
    | k => .error (.missingKey k)
  | _ => .error .unsupported

/-- The parts of a text between the occurrences of a separator, which is not empty. -/
def partsOf (separator : List Char) : Nat → List Char → List Char → List (List Char)
  | 0, part, _ => [part.reverse]
  | _ + 1, part, [] => [part.reverse]
  | fuel + 1, part, c :: cs =>
    if separator.isPrefixOf (c :: cs) then
      part.reverse :: partsOf separator fuel [] ((c :: cs).drop separator.length)
    else partsOf separator fuel (c :: part) cs

/-- The words of a text between white space. -/
def wordsOf (cs : List Char) : List (List Char) :=
  (cs.splitBy fun a b => Text.isBlank a == Text.isBlank b).filter fun w => !w.any Text.isBlank

/-- The value split at a separator. -/
def split (v separator : Value) : Except Fault Value :=
  let texts (parts : List (List Char)) : Value :=
    .list (parts.map fun cs => .str (String.ofList cs))
  match v, separator with
  | .str s, .str t =>
    if t.isEmpty then .error .badValue
    else .ok (texts (partsOf t.toList (s.length + 1) [] s.toList))
  | .str s, .null => .ok (texts (wordsOf s.toList))
  | .str _, _ | .bytes .., _ => .error .unsupported
  | _, _ => .error .missingAttribute

/-- What a message provider answers for an issue. -/
def word (f : Callable Value) (v : Value) : Except Fault Value :=
  match f.name, v with
  | "p_const", _ => .ok (captured f 0)
  | "p_field", .issue i => .ok ((i.field? ((captured f 0).str?.getD "")).getD .null)
  | "p_field", _ => .ok .null
  | "p_code", .issue i => .ok (.str ("[" ++ i.detail.code ++ "]"))
  | "p_only", .issue i =>
    .ok (if (captured f 0).equals (.str i.detail.code) then captured f 1 else .null)
  | "p_path", .issue i =>
    match Path.text? i.path with
    | some s => .ok (.str s)
    | none => .error .unsupported
  | "p_input", .issue i => .ok (.str i.input.describedType)
  | _, _ => .error .missingAttribute

/-- What a function of one argument answers. -/
def apply (f : Callable Value) (v : Value) : Except Fault Value :=
  match f.name with
  | "const" => .ok (captured f 0)
  | "identity" => .ok v
  | "positive" => before (.int 0) v
  | "even" => isEven v
  | "double" => double v
  | "inc" => increment v
  | "len" => size v
  | "str" => .ok (.str v.text)
  | "wrap" => .ok (.list [v])
  | "get" => lookup v (captured f 0)
  | "keys" =>
    match v.iterate? with
    | some vs => .ok (.list vs)
    | none => .error .unsupported
  | "split" => split v (captured f 0)
  | "eq_fields" => do
    let a ← lookup v (captured f 0)
    let b ← lookup v (captured f 1)
    return .bool (a.equals b)
  | "lt_fields" => do before (← lookup v (captured f 0)) (← lookup v (captured f 1))
  | "raise" => .error .badValue
  | _ => word f v

/-- What a function without arguments answers. -/
def produce (f : Callable Value) : Run Value := do
  match f.name with
  | "counter" =>
    let n := ((← get).counters.lookup f.ref).getD 0
    modify fun s => { s with counters := (f.ref, n + 1) :: s.counters.filter (·.1 != f.ref) }
    return .int n
  | "var" =>
    let name := (captured f 0).str?.getD ""
    ofOption (.missingKey (captured f 0)) ((← get).bindings.lookup name)
  | _ => return captured f 0

/-- What a callback with an issue sink answers. A text of ASCII digits becomes its number. -/
def report (f : Callable Value) (sink : Sink) : Except Fault Result :=
  match f.name with
  | "report" => do
    let sink ← sink.addAll f.captured
    return ⟨sink.value, sink.issues⟩
  | "to_int" =>
    let cs := (sink.value.str?.getD "").toList
    if cs.isEmpty || !cs.all Text.isAsciiDigit then do
      let sink ← sink.addParameters [(.str "message", .str "Not a number")]
      return ⟨sink.value, sink.issues⟩
    else if cs.length > Numeral.maxDigits then .error .badValue
    else .ok ⟨.int (Text.natOfDigits cs), []⟩
  | _ => .ok ⟨.list [sink.value, .list [], .list []], []⟩

/-- What a callback for a failed validation answers. -/
def recover (f : Callable Value) (v : Value) (issues : List (Issue Value)) :
    Except Fault Value :=
  match f.name with
  | "caught" =>
    .ok (.list [v, .list (issues.map fun i => .str i.detail.code),
      .list (issues.map (·.message))])
  | "report" => if f.captured.isEmpty then .ok v else .error .missingAttribute
  | _ =>
    let cs := (v.str?.getD "").toList
    if cs.isEmpty || !cs.all Text.isAsciiDigit then .error .missingAttribute
    else if cs.length > Numeral.maxDigits then .error .badValue
    else .ok (.int (Text.natOfDigits cs))

/-- What an evaluator answers: even integers pass one, nothing passes the other. -/
def evaluate (f : Callable Value) (schema v : Value) : Result :=
  match f.name with
  | "ev_even" =>
    let isEven := match v.whole? with
      | some n => n % 2 == 0
      | none => false
    if isEven then ⟨v, []⟩
    else ⟨v, [⟨[], .null, v, schema, .custom (.dict [(.str "parity", .str "even")])⟩]⟩
  | _ => ⟨v, [⟨[], captured f 0, v, schema, .custom (.dict [])⟩]⟩

/-- The meaning of the functions in the stock. -/
def host : Host where
  arity := arity
  isAsync f _ := f.isAsync
  isProvider := isProvider
  run f call := do
    match call with
    | .nothing => return ⟨← produce f, []⟩
    | .value v | .replacing v => return ⟨← Run.lift (apply f v), []⟩
    | .wording i => return ⟨← Run.lift (apply f (.issue i)), []⟩
    | .reporting v source => Run.lift (report f ⟨v, source, []⟩)
    | .recovering v issues => return ⟨← Run.lift (recover f v issues), []⟩
    | .evaluating schema v => return evaluate f schema v

end Assay.Stock
