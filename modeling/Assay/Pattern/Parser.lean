import Assay.Pattern.Basic

/-!
# Reading patterns

The text form of patterns: alternatives, sequences, repeated atoms, sets, groups and escapes.
The reader keeps the characters that are left and what it knows of the groups (`Parser.State`);
its fuel is a bound on the number of steps computed from the length of the text.
-/

namespace Assay

/-- Why a text is no pattern. -/
inductive PatternError
  | unterminatedSet
  | unterminatedGroup
  | unbalancedParenthesis
  | nothingToRepeat
  | repeatedRepeat
  | repeatOrder
  | badEscape
  | badRange
  | badGroupName
  | badGroupReference
  | badFlags
  | unknownExtension
  | variableLookBehind
  | tooDeep
  deriving DecidableEq, Inhabited, Repr

namespace Pattern.Parser

/-- What parts of a pattern read differently. -/
structure Flags where
  fold : Bool := false
  lines : Bool := false
  dotAll : Bool := false
  verbose : Bool := false
  deriving DecidableEq, Inhabited

/-- The reader's place and the groups met so far. -/
structure State where
  rest : List Char
  groups : Nat := 0
  opened : List Nat := []
  names : List (List Char × Nat) := []
  deriving Inhabited

/-- One piece of a sequence; repetition looks at what kind of piece comes before it. -/
inductive Piece
  | atom (p : Pattern)
  | place (p : Pattern)
  | repeated (p : Pattern)
  deriving Inhabited

/-- The pattern of a piece. -/
def Piece.pattern : Piece → Pattern
  | .atom p | .place p | .repeated p => p

/-- The sequence of pieces, given latest first. -/
def sequence (pieces : List Piece) : Pattern :=
  pieces.foldl (fun acc p => match acc with
    | .empty => p.pattern
    | _ => .seq p.pattern acc) .empty

/-- The value of a hexadecimal digit. -/
def hexValue? (c : Char) : Option Nat :=
  if '0' ≤ c && c ≤ '9' then some (c.toNat - 48)
  else if 'a' ≤ c && c ≤ 'f' then some (c.toNat - 87)
  else if 'A' ≤ c && c ≤ 'F' then some (c.toNat - 55)
  else none

/-- A character given by exactly `n` hexadecimal digits. -/
def hexEscape (n : Nat) (cs : List Char) : Except PatternError (Char × List Char) :=
  let ds := (cs.take n).map hexValue?
  if ds.length == n && ds.all Option.isSome then
    let v := ds.foldl (fun acc d => acc * 16 + d.getD 0) 0
    if v < 0x110000 then .ok (Char.ofNat v, cs.drop n) else .error .badEscape
  else .error .badEscape

/-- An octal digit. -/
def isOctal (c : Char) : Bool := '0' ≤ c && c ≤ '7'

/-- The value of octal digits. -/
def octalValue (cs : List Char) : Nat := cs.foldl (fun n c => n * 8 + (c.toNat - 48)) 0

/-- The control characters that have a letter. -/
def controlEscape? : Char → Option Char
  | 'a' => some '\x07'
  | 'f' => some '\x0c'
  | 'n' => some '\n'
  | 'r' => some '\r'
  | 't' => some '\t'
  | 'v' => some '\x0b'
  | _ => none

/-- The class that a letter names, negated by a capital. -/
def classEscape? : Char → Option SetItem
  | 'd' => some (.named false .digit)
  | 'D' => some (.named true .digit)
  | 's' => some (.named false .blank)
  | 'S' => some (.named true .blank)
  | 'w' => some (.named false .word)
  | 'W' => some (.named true .word)
  | _ => none

/-- Escapes that mean one character wherever they stand, after the backslash. -/
def commonEscape? (c : Char) (cs : List Char) :
    Option (Except PatternError (Char × List Char)) :=
  if c == 'x' then some (hexEscape 2 cs)
  else if c == 'u' then some (hexEscape 4 cs)
  else if c == 'U' then some (hexEscape 8 cs)
  else match controlEscape? c with
    | some d => some (.ok (d, cs))
    | none => if c.isAlphanum then none else some (.ok (c, cs))

/-- A member of a set after its backslash. -/
def setEscape : List Char → Except PatternError (SetItem × List Char)
  | [] => .error .badEscape
  | c :: cs =>
    match classEscape? c with
    | some item => .ok (item, cs)
    | none =>
      if c == 'b' then .ok (.single '\x08', cs)
      else if isOctal c then
        let more := (cs.take 2).takeWhile isOctal
        let v := octalValue (c :: more)
        if v > 255 then .error .badEscape else .ok (.single (Char.ofNat v), cs.drop more.length)
      else match commonEscape? c cs with
        | some r => r.map fun (d, rest) => (.single d, rest)
        | none => .error .badEscape

/-- One end of a range, or a single member. -/
def setMember : List Char → Except PatternError (SetItem × List Char)
  | [] => .error .unterminatedSet
  | '\\' :: cs => setEscape cs
  | c :: cs => .ok (.single c, cs)

/-- The members of a set up to its closing bracket, which may be the first member. -/
def setItems : Nat → List SetItem → List Char → Except PatternError (List SetItem × List Char)
  | 0, _, _ => .error .tooDeep
  | fuel + 1, items, cs =>
    match cs with
    | [] => .error .unterminatedSet
    | ']' :: rest =>
      if items.isEmpty then setRest fuel items (.single ']') rest else .ok (items, rest)
    | _ => do
      let (item, rest) ← setMember cs
      setRest fuel items item rest
where
  /-- What follows a member: a range, or the next member. -/
  setRest (fuel : Nat) (items : List SetItem) (item : SetItem) (rest : List Char) :
      Except PatternError (List SetItem × List Char) :=
    match rest with
    | '-' :: ']' :: tail => .ok (items ++ [item, .single '-'], tail)
    | ['-'] => .error .unterminatedSet
    | '-' :: tail => do
      let (last, tail) ← setMember tail
      match item, last with
      | .single a, .single b =>
        if b < a then .error .badRange else setItems fuel (items ++ [.range a b]) tail
      | _, _ => .error .badRange
    | _ => setItems fuel (items ++ [item]) rest

/-- The bounds of a repetition in braces, when the braces hold bounds. -/
def braces? (cs : List Char) : Option (Nat × Option Nat × List Char) :=
  let lo := cs.takeWhile Text.isAsciiDigit
  let rest := cs.dropWhile Text.isAsciiDigit
  let (hi, tail) := match rest with
    | ',' :: r => (r.takeWhile Text.isAsciiDigit, r.dropWhile Text.isAsciiDigit)
    | r => (lo, r)
  match cs, tail with
  | '}' :: _, _ => none
  | _, '}' :: tail =>
    some (Text.natOfDigits lo, if hi.isEmpty then none else some (Text.natOfDigits hi), tail)
  | _, _ => none

/-- Set the flags that letters name. -/
def Flags.with (f : Flags) (value : Bool) (letters : List Char) : Option Flags :=
  letters.foldlM (fun f c =>
    match c with
    | 'i' => some { f with fold := value }
    | 'm' => some { f with lines := value }
    | 's' => some { f with dotAll := value }
    | 'x' => some { f with verbose := value }
    | 'u' => if value then some f else none
    | _ => none) f

/-- A group name: a letter or underscore, then letters, digits and underscores. -/
def isGroupName : List Char → Bool
  | [] => false
  | c :: cs =>
    CharClass.word.holds c && !Text.isDecimal c && cs.all CharClass.word.holds

/-- A name up to its closing mark. -/
def groupName (close : Char) (cs : List Char) : Except PatternError (List Char × List Char) :=
  let name := cs.takeWhile (· != close)
  match cs.dropWhile (· != close) with
  | _ :: rest => if isGroupName name then .ok (name, rest) else .error .badGroupName
  | [] => .error .badGroupName

/-- A reference to a group by number, which must be closed already. -/
def reference (flags : Flags) (st : State) (n : Nat) (rest : List Char) : Except PatternError (Piece × State) :=
  if 0 < n ∧ n ≤ st.groups ∧ !st.opened.contains n then
    .ok (.atom (.backref flags.fold n), { st with rest })
  else .error .badGroupReference

/-- An escape outside sets, after its backslash. -/
def escape (flags : Flags) (st : State) : List Char → Except PatternError (Piece × State)
  | [] => .error .badEscape
  | c :: cs =>
    let place (a : Anchor) : Except PatternError (Piece × State) := .ok (.place (.anchor a), { st with rest := cs })
    match c with
    | 'A' => place .textStart
    | 'Z' => place .textEnd
    | 'b' => place .wordBoundary
    | 'B' => place .noWordBoundary
    | _ =>
      let literal (d : Char) (rest : List Char) : Except PatternError (Piece × State) :=
        .ok (.atom (.char flags.fold d), { st with rest })
      match classEscape? c with
      | some item => .ok (.atom (.set flags.fold false [item]), { st with rest := cs })
      | none =>
        if c == '0' then
          let more := (cs.take 2).takeWhile isOctal
          literal (Char.ofNat (octalValue more)) (cs.drop more.length)
        else if Text.isAsciiDigit c then
          match cs with
          | d :: e :: rest =>
            if isOctal c && isOctal d && isOctal e then
              let v := octalValue [c, d, e]
              if v > 255 then .error .badEscape else literal (Char.ofNat v) rest
            else if Text.isAsciiDigit d then reference flags st (Text.natOfDigits [c, d]) (e :: rest)
            else reference flags st (Text.natOfDigits [c]) cs
          | [d] =>
            if Text.isAsciiDigit d then reference flags st (Text.natOfDigits [c, d]) []
            else reference flags st (Text.natOfDigits [c]) cs
          | [] => reference flags st (Text.natOfDigits [c]) []
        else match commonEscape? c cs with
          | some (.ok (d, rest)) => literal d rest
          | some (.error e) => .error e
          | none => .error .badEscape

/-- Apply a repetition to the latest piece. -/
def repeatLast (low : Nat) (high : Option Nat) : List Piece → Except PatternError (List Piece)
  | [] | .place _ :: _ => .error .nothingToRepeat
  | .repeated _ :: _ => .error .repeatedRepeat
  | .atom p :: rest =>
    if high.any (· < low) then .error .repeatOrder else .ok (.repeated (.rep p low high) :: rest)

/-- Skip the mark of a reluctant repetition, which finds the same matches. -/
def skipReluctant : List Char → List Char
  | '?' :: cs => cs
  | cs => cs

/-- A look behind reads a fixed number of characters. -/
def behindPiece (negated : Bool) (p : Pattern) : Except PatternError Piece :=
  match p.fixedWidth? with
  | some w => .ok (.atom (.behind negated w p))
  | none => .error .variableLookBehind

mutual

/-- Alternatives up to a closing parenthesis or the end. -/
def alternatives : Nat → Flags → Bool → State → Except PatternError (Pattern × State)
  | 0, _, _, _ => .error .tooDeep
  | fuel + 1, flags, top, st => do
    let (p, st) ← pieces fuel flags top [] st
    match st.rest with
    | '|' :: rest =>
      let (q, st) ← alternatives fuel flags false { st with rest }
      return (.alt p q, st)
    | _ => return (p, st)

/-- The pieces of one sequence, the pieces so far given latest first. -/
def pieces : Nat → Flags → Bool → List Piece → State → Except PatternError (Pattern × State)
  | 0, _, _, _, _ => .error .tooDeep
  | fuel + 1, flags, top, acc, st =>
    let push (p : Pattern) (rest : List Char) :=
      pieces fuel flags false (.atom p :: acc) { st with rest }
    let place (a : Anchor) (rest : List Char) :=
      pieces fuel flags false (.place (.anchor a) :: acc) { st with rest }
    let again (low : Nat) (high : Option Nat) (rest : List Char) := do
      let acc ← repeatLast low high acc
      pieces fuel flags false acc { st with rest := skipReluctant rest }
    match st.rest with
    | [] => .ok (sequence acc, st)
    | c :: rest =>
      if flags.verbose && Text.isBlank c then pieces fuel flags top acc { st with rest }
      else if flags.verbose && c == '#' then
        pieces fuel flags top acc { st with rest := rest.dropWhile (· != '\n') }
      else
      match c with
      | '|' | ')' => .ok (sequence acc, st)
      | '.' => push (.any flags.dotAll) rest
      | '^' => place (if flags.lines then .lineStart else .textStart) rest
      | '$' => place (if flags.lines then .lineEnd else .lastLineEnd) rest
      | '*' => again 0 none rest
      | '+' => again 1 none rest
      | '?' => again 0 (some 1) rest
      | '{' =>
        match braces? rest with
        | some (low, high, rest) => again low high rest
        | none => push (.char flags.fold '{') rest
      | '[' => do
        let (negated, body) := match rest with
          | '^' :: body => (true, body)
          | body => (false, body)
        let (items, rest) ← setItems (body.length + 1) [] body
        push (.set flags.fold negated items) rest
      | '\\' => do
        let (p, st) ← escape flags st rest
        pieces fuel flags false (p :: acc) st
      | '(' => groupPiece fuel flags (top && acc.isEmpty) acc { st with rest }
      | _ => push (.char flags.fold c) rest

/-- A group after its opening parenthesis. -/
def groupPiece : Nat → Flags → Bool → List Piece → State → Except PatternError (Pattern × State)
  | 0, _, _, _, _ => .error .tooDeep
  | fuel + 1, flags, top, acc, st =>
    let close (st : State) : Except PatternError (Unit × State) :=
      match st.rest with
      | ')' :: rest => .ok ((), { st with rest })
      | _ => .error .unterminatedGroup
    let captured (st : State) : Except PatternError (Pattern × State) := do
      let n := st.groups + 1
      let (p, st) ← alternatives fuel flags false { st with groups := n, opened := n :: st.opened }
      let ((), st) ← close st
      pieces fuel flags false (.atom (.group n p) :: acc)
        { st with opened := st.opened.erase n }
    let grouped (flags' : Flags) (wrap : Pattern → Except PatternError Piece) (st : State) :
        Except PatternError (Pattern × State) := do
      let (p, st) ← alternatives fuel flags' false st
      let ((), st) ← close st
      let piece ← wrap p
      pieces fuel flags false (piece :: acc) st
    match st.rest with
    | '?' :: ':' :: rest => grouped flags (fun p => .ok (.atom p)) { st with rest }
    | '?' :: '=' :: rest => grouped flags (fun p => .ok (.atom (.ahead false p))) { st with rest }
    | '?' :: '!' :: rest => grouped flags (fun p => .ok (.atom (.ahead true p))) { st with rest }
    | '?' :: '<' :: '=' :: rest => grouped flags (behindPiece false) { st with rest }
    | '?' :: '<' :: '!' :: rest => grouped flags (behindPiece true) { st with rest }
    | '?' :: '#' :: rest =>
      match rest.dropWhile (· != ')') with
      | _ :: rest => pieces fuel flags top acc { st with rest }
      | [] => .error .unterminatedGroup
    | '?' :: 'P' :: '<' :: rest => do
      let (name, rest) ← groupName '>' rest
      if st.names.any (·.1 == name) then .error .badGroupName
      else captured { st with rest, names := (name, st.groups + 1) :: st.names }
    | '?' :: 'P' :: '=' :: rest => do
      let (name, rest) ← groupName ')' rest
      match st.names.find? (·.1 == name) with
      | some (_, n) =>
        let (p, st) ← reference flags st n rest
        pieces fuel flags false (p :: acc) st
      | none => .error .badGroupReference
    | '?' :: rest =>
      let on := rest.takeWhile Char.isAlpha
      let tail := rest.dropWhile Char.isAlpha
      match flags.with true on, tail with
      | some f, ')' :: rest =>
        if top && !on.isEmpty then pieces fuel f true acc { st with rest } else .error .badFlags
      | some f, ':' :: rest =>
        if on.isEmpty then .error .unknownExtension
        else grouped f (fun p => .ok (.atom p)) { st with rest }
      | some f, '-' :: rest =>
        let off := rest.takeWhile Char.isAlpha
        match f.with false off, rest.dropWhile Char.isAlpha with
        | some f, ':' :: rest =>
          if off.isEmpty then .error .badFlags else grouped f (fun p => .ok (.atom p)) { st with rest }
        | _, _ => .error .badFlags
      | _, _ => .error .unknownExtension
    | _ => captured st

end

end Pattern.Parser

/-- The pattern that a text writes. Only an unmatched parenthesis can stop the reader before
the end. -/
def Pattern.ofText (s : String) : Except PatternError Pattern :=
  let cs := s.toList
  match Pattern.Parser.alternatives (4 * cs.length + 8) {} true { rest := cs } with
  | .ok (p, st) => if st.rest.isEmpty then .ok p else .error .unbalancedParenthesis
  | .error e => .error e

end Assay
