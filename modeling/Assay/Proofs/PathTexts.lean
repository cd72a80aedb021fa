import Assay.Proofs.Numerals
import Assay.Proofs.QuotedTexts

/-!
# Rendered paths and what they say

The keys of a rendered path stand next to each other, but the end of each can be told: a quoted name
ends at its closing mark, a position at its closing bracket, and a bare word at the bracket or point
that every key but the first starts with (`Path.firstKey?`, `Path.Says`). So the text of a path of
positions and names says that path (`Path.ofText?`, `Path.exists_textFrom`), and no two such paths
have the same text (`rendered_paths_identify`).
-/

namespace Assay

open Text

namespace Path

/-- The keys that lead into nested values: positions and names. Truth values are written as words in
brackets and are not among them. -/
inductive IsKey : Value → Prop
  | position (n : Int) : IsKey (.int n)
  | name (s : String) : IsKey (.str s)

/-! ## Reading -/

/-- A character that a word can go on with. -/
def isWordPart (c : Char) : Bool := c.isAlphanum || c == '_'

/-- A bare word, and what follows it. -/
def word? (cs : List Char) : Option (Value × List Char) :=
  let name := cs.takeWhile isWordPart
  if isWord name then some (.str (String.ofList name), cs.dropWhile isWordPart) else none

/-- A quoted name from the character after its opening mark to the closing bracket, and what follows
that. -/
def quotedName? (cs : List Char) : Option (Value × List Char) :=
  match JsonText.text ⟨cs, 0⟩ with
  | .ok (s, ⟨']' :: rest, _⟩) => some (.str s, rest)
  | _ => none

/-- A position up to the closing bracket, and what follows that. -/
def bracketedPosition? (cs : List Char) : Option (Value × List Char) :=
  match Numeral.floatReading? (String.ofList (cs.takeWhile (· != ']'))) with
  | some (.decimal negative n 0) =>
    some (.int (if negative then -n else n), (cs.dropWhile (· != ']')).drop 1)
  | _ => none

/-- The key that a text starts with, and what follows it. Only the first key of a path can be a word
without a point before it, and no other can. -/
def firstKey? (isFirst : Bool) : List Char → Option (Value × List Char)
  | [] => none
  | '[' :: '"' :: cs => quotedName? cs
  | '[' :: cs => bracketedPosition? cs
  | '.' :: cs => if isFirst then none else word? cs
  | cs => if isFirst then word? cs else none

/-- The keys that a text says, one after the other. -/
def keysFrom? (isFirst : Bool) (cs : List Char) : Option (List Value) :=
  if cs.isEmpty then some []
  else match firstKey? isFirst cs with
    | none => none
    | some (k, rest) =>
      if rest.length < cs.length then (keysFrom? false rest).map (k :: ·) else none
termination_by cs.length

/-- The path that a text says. -/
def ofText? (s : String) : Option (List Value) := keysFrom? true s.toList

/-! ## Where keys end -/

/-- A word cannot go on with this text. -/
def Stops (cs : List Char) : Prop := ∀ c ∈ cs.head?, isWordPart c = false

/-- A text that is read as a key, whatever follows that no word goes on with. -/
structure Says (isFirst : Bool) (t : String) (k : Value) : Prop where
  reads : ∀ rest, Stops rest → firstKey? isFirst (t.toList ++ rest) = some (k, rest)
  stops : isFirst = false → Stops t.toList

variable {isFirst : Bool} {t s : String} {k : Value} {cs rest : List Char}

theorem Says.ne_nil (h : Says isFirst t k) : t.toList ≠ [] := by
  intro hnil
  have hread := h.reads [] nofun
  rw [hnil] at hread
  cases hread

theorem isWordPart_of_isWord (h : isWord cs = true) : ∀ c ∈ cs, isWordPart c = true := by
  cases cs with
  | nil => exact nofun
  | cons c cs =>
    simp only [isWord, Bool.and_eq_true, Bool.or_eq_true, List.all_eq_true, beq_iff_eq] at h
    obtain ⟨hfirst, hothers⟩ := h
    intro d hd
    rcases List.mem_cons.1 hd with rfl | hd
    · rcases hfirst with hletter | rfl
      · simp [isWordPart, Char.isAlphanum, hletter]
      · rfl
    · simpa [isWordPart] using hothers d hd

theorem word?_append (hword : isWord cs = true) (hrest : Stops rest) :
    word? (cs ++ rest) = some (.str (String.ofList cs), rest) := by
  obtain ⟨htake, hdrop⟩ := takeWhile_stops (isWordPart_of_isWord hword) hrest
  unfold word?
  rw [htake, hdrop, if_pos hword]

/-- A word starts with neither a bracket nor a point, so it is read as one. -/
theorem firstKey?_word (hword : isWord cs = true) (rest : List Char) :
    firstKey? true (cs ++ rest) = word? (cs ++ rest) := by
  have hparts := isWordPart_of_isWord hword
  cases cs with
  | nil => cases hword
  | cons c cs =>
    have hpart : isWordPart c = true := hparts c List.mem_cons_self
    have hbracket : c ≠ '[' := by
      rintro rfl
      cases hpart
    have hpoint : c ≠ '.' := by
      rintro rfl
      cases hpart
    simp [firstKey?, hbracket, hpoint]

/-! ## Keys -/

/-- A word, with a point before it unless it is the first key. -/
theorem says_word (hword : isWord s.toList = true) (isFirst : Bool) :
    Says isFirst (if isFirst then s else "." ++ s) (.str s) := by
  have hread (rest : List Char) (hrest : Stops rest) :
      word? (s.toList ++ rest) = some (.str s, rest) := by
    have h := word?_append hword hrest
    rwa [String.ofList_toList] at h
  cases isFirst with
  | false =>
    refine ⟨?_, ?_⟩
    · intro rest hrest
      simpa [firstKey?, String.toList_append] using hread rest hrest
    · intro _ c hc
      obtain rfl : c = '.' := by simpa [String.toList_append] using hc.symm
      rfl
  | true =>
    refine ⟨?_, nofun⟩
    intro rest hrest
    show firstKey? true (s.toList ++ rest) = _
    rw [firstKey?_word hword, hread rest hrest]

/-- A key in square brackets needs nothing to end it but the closing one. -/
theorem says_bracketed (ht : t.toList = '[' :: cs)
    (hread : ∀ rest, firstKey? isFirst ('[' :: (cs ++ rest)) = some (k, rest)) :
    Says isFirst t k := by
  refine ⟨?_, ?_⟩
  · intro rest _
    rw [ht]
    exact hread rest
  · rintro _ c hc
    rw [ht] at hc
    cases hc
    rfl

/-- A numeral has no bracket in it, so it ends at the closing one. -/
theorem bracketedPosition?_append (n : Int) (rest : List Char) :
    bracketedPosition? ((toString n).toList ++ ']' :: rest) = some (.int n, rest) := by
  have hinside : ∀ c ∈ (toString n).toList, (c != ']') = true := by
    intro c hc
    rw [bne_iff_ne]
    rintro rfl
    cases Numeral.isPlain_toString n _ hc
  have hend : ∀ c ∈ (']' :: rest).head?, (c != ']') = false := by
    rintro c ⟨⟩
    rfl
  obtain ⟨htake, hdrop⟩ := takeWhile_stops hinside hend
  have hsign : (if n < 0 then -(n.natAbs : Int) else n.natAbs) = n := by
    split <;> omega
  unfold bracketedPosition?
  rw [htake, hdrop, String.ofList_toList, Numeral.floatReading?_toString]
  simpa using hsign

/-- A position in brackets: no numeral starts with a quotation mark. -/
theorem says_position (n : Int) (isFirst : Bool) :
    Says isFirst ("[" ++ toString n ++ "]") (.int n) := by
  have hlist : ("[" ++ toString n ++ "]").toList = '[' :: ((toString n).toList ++ [']']) := by
    simp [String.toList_append]
  refine says_bracketed hlist ?_
  intro rest
  rw [List.append_assoc, List.singleton_append, ← bracketedPosition?_append n rest]
  have hplain := Numeral.isPlain_toString n
  cases hs : (toString n).toList with
  | nil => rfl
  | cons c cs =>
    have hquote : c ≠ '"' := by
      rintro rfl
      rw [hs] at hplain
      cases hplain '"' List.mem_cons_self
    simp [firstKey?, hquote]

/-- A name in quotation marks and brackets. -/
theorem says_quoted (s : String) (isFirst : Bool) :
    Says isFirst ("[" ++ asciiQuoted s ++ "]") (.str s) := by
  have hlist : ("[" ++ asciiQuoted s ++ "]").toList =
      '[' :: '"' :: (s.toList.flatMap asciiEscaped ++ ['"', ']']) := by
    simp [asciiQuoted, String.toList_append]
  refine says_bracketed hlist ?_
  intro rest
  obtain ⟨place, hread⟩ := JsonText.text_asciiEscaped s.toList (']' :: rest) 0
  simp [firstKey?, quotedName?, hread]

/-- Every key has a text that says it. -/
theorem IsKey.exists_text (h : IsKey k) (isFirst : Bool) :
    ∃ t, keyText? isFirst k = some t ∧ Says isFirst t k := by
  cases h with
  | position n => exact ⟨_, rfl, says_position n isFirst⟩
  | name s =>
    unfold keyText?
    dsimp only
    split
    next hword => exact ⟨_, rfl, says_word hword isFirst⟩
    next => exact ⟨_, rfl, says_quoted s isFirst⟩

/-! ## Paths -/

/-- The keys of a path are read off its text one after the other: each text ends where the next key
starts. -/
theorem exists_textFrom {path : List Value} (h : ∀ k ∈ path, IsKey k) (isFirst : Bool) :
    ∃ t, textFrom? isFirst path = some t ∧ keysFrom? isFirst t.toList = some path ∧
      (isFirst = false → Stops t.toList) := by
  induction path generalizing isFirst with
  | nil => exact ⟨"", rfl, by rw [keysFrom?]; rfl, fun _ => nofun⟩
  | cons k path ih =>
    obtain ⟨hk, hpath⟩ := List.forall_mem_cons.1 h
    obtain ⟨t, ht, hkey⟩ := hk.exists_text isFirst
    obtain ⟨ts, hts, hread, hstops⟩ := ih hpath false
    refine ⟨t ++ ts, ?_, ?_, ?_⟩
    · rw [textFrom?, ht, hts]
      rfl
    · have hfirst := hkey.reads ts.toList (hstops rfl)
      have hpos := List.length_pos_iff.2 hkey.ne_nil
      rw [String.toList_append, keysFrom?, hfirst, if_neg (by simp [hkey.ne_nil])]
      simp [hread, hpos]
    · intro hlater c hc
      obtain ⟨d, ds, hds⟩ := List.exists_cons_of_ne_nil hkey.ne_nil
      refine hkey.stops hlater c ?_
      rw [String.toList_append, hds] at hc
      rwa [hds]

end Path

/-- A rendered path identifies its place: a path of positions and names has a text, the text says the
path, and no other path of positions and names has the same text. -/
theorem rendered_paths_identify {p q : List Value} (hp : ∀ k ∈ p, Path.IsKey k)
    (hq : ∀ k ∈ q, Path.IsKey k) :
    (∃ t, Path.text? p = some t ∧ Path.ofText? t = some p) ∧
      (Path.text? p = Path.text? q → p = q) := by
  obtain ⟨t, ht, hread, -⟩ := Path.exists_textFrom hp true
  obtain ⟨t', ht', hread', -⟩ := Path.exists_textFrom hq true
  refine ⟨⟨t, ht, hread⟩, ?_⟩
  intro hsame
  have htexts : t = t' := by
    rw [← Option.some_inj, ← ht, ← ht']
    exact hsame
  subst htexts
  exact Option.some_inj.1 (hread.symm.trans hread')

/-- A point in a name is told from the point between two names. -/
theorem rendered_paths_identify_point :
    Path.ofText? "user[-1][\"a.\\u00e9\"]" = some [.str "user", .int (-1), .str "a.é"] ∧
      Path.text? [.str "user", .int (-1), .str "a.é"] ≠
        Path.text? [.str "user", .int (-1), .str "a", .str "é"] := by
  have hp : ∀ k ∈ [Value.str "user", .int (-1), .str "a.é"], Path.IsKey k := by
    simp [Path.IsKey.name, Path.IsKey.position]
  have hq : ∀ k ∈ [Value.str "user", .int (-1), .str "a", .str "é"], Path.IsKey k := by
    simp [Path.IsKey.name, Path.IsKey.position]
  have htext : Path.text? [.str "user", .int (-1), .str "a.é"] =
      some "user[-1][\"a.\\u00e9\"]" := by decide +kernel
  obtain ⟨⟨t, ht, hread⟩, hsame⟩ := rendered_paths_identify hp hq
  obtain rfl : t = _ := Option.some_inj.1 (ht.symm.trans htext)
  refine ⟨hread, ?_⟩
  intro h
  have := hsame h
  simp at this

end Assay
