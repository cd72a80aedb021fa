import Assay.Pattern.Basic

/-!
# What a pattern matches

A match is described by where it can end: `Pattern.ends p k` lists the cursors at which a match
of `p` from the cursor `k` can stop. Only whether there is one is ever asked, so the list holds
each end once and its order means nothing. Repetition reads at least one character per copy
beyond the required ones, which bounds it by the characters that are left.
-/

namespace Assay

/-- A place in a text, with the texts of the groups matched so far, latest first. -/
structure Cursor where
  /-- The characters already passed, nearest first. -/
  before : List Char
  /-- The characters still to come. -/
  after : List Char
  groups : List (Nat × List Char)
  deriving DecidableEq, Inhabited

namespace Cursor

/-- The start of a text. -/
def start (cs : List Char) : Cursor := ⟨[], cs, []⟩

/-- Move over one character that satisfies `p`. -/
def step (p : Char → Bool) (k : Cursor) : List Cursor :=
  match k.after with
  | [] => []
  | c :: rest => if p c then [⟨c :: k.before, rest, k.groups⟩] else []

/-- A word character stands on exactly one side. -/
def atWordBoundary (k : Cursor) : Bool :=
  (k.before.head?.any CharClass.word.holds) != (k.after.head?.any CharClass.word.holds)

/-- The place satisfies an anchor. -/
def satisfies (k : Cursor) : Anchor → Bool
  | .textStart => k.before.isEmpty
  | .textEnd => k.after.isEmpty
  | .lastLineEnd => k.after.isEmpty || k.after == ['\n']
  | .lineStart => k.before.isEmpty || k.before.head? == some '\n'
  | .lineEnd => k.after.isEmpty || k.after.head? == some '\n'
  | .wordBoundary => k.atWordBoundary
  | .noWordBoundary => !k.atWordBoundary

/-- Move over a given text. -/
def stepText (fold : Bool) : List Char → Cursor → List Cursor
  | [], k => [k]
  | c :: cs, k =>
    (k.step fun d => if fold then sameLetter c d else c == d).flatMap (stepText fold cs)

/-- Move back over a number of characters, if there are so many. -/
def back : Nat → Cursor → Option Cursor
  | 0, k => some k
  | n + 1, k =>
    match k.before with
    | [] => none
    | c :: rest => back n ⟨rest, c :: k.after, k.groups⟩

/-- Keep the text between two cursors as a group's. -/
def capture (index : Nat) (first last : Cursor) : Cursor :=
  let text := (last.before.take (last.before.length - first.before.length)).reverse
  { last with groups := (index, text) :: last.groups }

/-- The cursors of a list, each once. -/
def distinct (ks : List Cursor) : List Cursor :=
  ks.foldl (fun acc k =>
    if acc.any fun j => j.after.length == k.after.length && j.groups == k.groups then acc
    else acc ++ [k]) []

/-- Exactly `n` steps from each cursor. -/
def repeatExactly (f : Cursor → List Cursor) : Nat → List Cursor → List Cursor
  | 0, ks => ks
  | n + 1, ks => repeatExactly f n (distinct (ks.flatMap f))

/-- At most `n` steps from each cursor, each step reading something. -/
def repeatUpTo (f : Cursor → List Cursor) : Nat → List Cursor → List Cursor
  | 0, ks => ks
  | n + 1, ks =>
    let next := distinct (ks.flatMap fun k => (f k).filter fun j => j.after.length < k.after.length)
    if next.isEmpty then ks else ks ++ repeatUpTo f n next

end Cursor

namespace Pattern

/-- The cursors at which a match from a cursor can end. -/
def ends : Pattern → Cursor → List Cursor
  | empty, k => [k]
  | char fold c, k => k.step fun d => if fold then sameLetter c d else c == d
  | any newline, k => k.step fun d => newline || d != '\n'
  | set fold negated items, k => k.step (setHolds fold negated items)
  | anchor a, k => if k.satisfies a then [k] else []
  | seq p q, k => Cursor.distinct ((p.ends k).flatMap q.ends)
  | alt p q, k => Cursor.distinct (p.ends k ++ q.ends k)
  | rep p low high, k =>
    let first := Cursor.repeatExactly p.ends low [k]
    let more := match high with
      | some n => min (n - low) k.after.length
      | none => k.after.length
    Cursor.distinct (Cursor.repeatUpTo p.ends more first)
  | group index p, k => (p.ends k).map (Cursor.capture index k)
  | backref fold index, k =>
    match k.groups.find? fun (i, _) => i == index with
    | some (_, text) => k.stepText fold text
    | none => []
  | ahead negated p, k =>
    match p.ends k with
    | [] => if negated then [k] else []
    | j :: _ => if negated then [] else [{ k with groups := j.groups }]
  | behind negated width p, k =>
    let found := match k.back width with
      | some j => (p.ends j).any fun i => i.after.length == k.after.length
      | none => false
    if found != negated then [k] else []

/-- The whole text is a match. -/
def matchesWhole (p : Pattern) (s : String) : Bool :=
  (p.ends (.start s.toList)).any fun k => k.after.isEmpty

/-- A match starts at the cursor or later. -/
def foundFrom (p : Pattern) (before : List Char) : List Char → Bool
  | [] => !(p.ends ⟨before, [], []⟩).isEmpty
  | c :: rest => !(p.ends ⟨before, c :: rest, []⟩).isEmpty || p.foundFrom (c :: before) rest

/-- A match starts somewhere in the text. -/
def occursIn (p : Pattern) (s : String) : Bool :=
  p.foundFrom [] s.toList

end Pattern

end Assay
