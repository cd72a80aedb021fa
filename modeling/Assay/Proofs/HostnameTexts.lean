import Assay.Proofs.FormatTexts
import Mathlib

/-!
# Host names

A host name is at most 253 characters long, perhaps with one more point at its end, and it is made
of labels between points (`Hostname.IsHostname`). The pattern that issues show looks ahead for the
length and then reads label after label; the recognizer splits the name at its points. Both accept
exactly the host names (`hostname_texts`).
-/

namespace Assay

open Pattern

namespace Hostname

/-- A label: one to 63 letters, digits and hyphens, with no hyphen at either end. -/
structure IsLabel (label : List Char) : Prop where
  nonempty : 1 ≤ label.length
  short : label.length ≤ 63
  characters : ∀ c ∈ label, c.isAlphanum = true ∨ c = '-'
  first : label.head? ≠ some '-'
  last : label.getLast? ≠ some '-'

/-- A name: one to 253 characters, which points divide into labels. -/
structure IsName (name : List Char) : Prop where
  nonempty : 1 ≤ name.length
  short : name.length ≤ 253
  labels : ∀ label ∈ name.splitOn '.', IsLabel label

/-- A name, perhaps with one point at its end. -/
def IsHostname (cs : List Char) : Prop :=
  ∃ name, IsName name ∧ (cs = name ∨ cs = name ++ ['.'])

variable {cs label name : List Char} {c : Char}

/-! ## Labels between points -/

theorem IsLabel.point_not_mem (h : IsLabel label) : '.' ∉ label := by
  intro hmem
  have := h.characters _ hmem
  revert this
  decide

theorem intercalate_point (label : List Char) (labels : List (List Char)) :
    ['.'].intercalate (label :: labels) = label ++ (labels.map ('.' :: ·)).flatten := by
  induction labels generalizing label with
  | nil => simp
  | cons next labels ih =>
    rw [List.intercalate_cons_cons, ih, List.map_cons, List.flatten_cons]
    simp

/-- Labels stay apart between points. -/
theorem exists_labels : (∀ label ∈ name.splitOn '.', IsLabel label) ↔
    ∃ label labels, name = label ++ (labels.map ('.' :: ·)).flatten ∧
      ∀ l ∈ label :: labels, IsLabel l := by
  constructor
  · intro h
    obtain ⟨label, labels, hsplit⟩ := List.exists_cons_of_ne_nil (List.splitOn_ne_nil '.' name)
    refine ⟨label, labels, ?_, hsplit ▸ h⟩
    rw [← intercalate_point, ← hsplit, List.intercalate_splitOn]
  · rintro ⟨label, labels, rfl, h⟩
    rwa [← intercalate_point,
      List.splitOn_intercalate _ (fun l hl => (h l hl).point_not_mem) (List.cons_ne_nil _ _)]

theorem nonempty_of_labels (h : ∀ label ∈ name.splitOn '.', IsLabel label) : 1 ≤ name.length := by
  obtain ⟨label, labels, rfl, hlabels⟩ := exists_labels.1 h
  have hlabel := (hlabels label List.mem_cons_self).nonempty
  rw [List.length_append]
  omega

/-- A point at the end leaves an empty label. -/
theorem not_labels_of_point : ¬ ∀ label ∈ (name ++ ['.']).splitOn '.', IsLabel label := by
  intro h
  have hsplit : (name ++ ['.']).splitOn '.' = name.splitOn '.' ++ [[]] :=
    List.splitOnP_append_cons name [] (by decide)
  have hempty := (h [] (by simp [hsplit])).nonempty
  cases hempty

theorem newline_not_mem (h : ∀ label ∈ name.splitOn '.', IsLabel label) : '\n' ∉ name := by
  obtain ⟨label, labels, rfl, hlabels⟩ := exists_labels.1 h
  have hlabel : ∀ l ∈ label :: labels, '\n' ∉ l := by
    intro l hl hmem
    have := (hlabels l hl).characters _ hmem
    revert this
    decide
  simpa using hlabel

/-! ## The recognizer -/

theorem splitAll_eq_splitOn (separator : Char) (cs : List Char) :
    Net.splitAll separator cs = cs.splitOn separator := by
  induction cs with
  | nil => rfl
  | cons c cs ih =>
    rw [Net.splitAll, List.splitOn_cons_eq_if_modifyHead, ih]
    split
    · rfl
    · cases h : cs.splitOn separator with
      | nil => exact absurd h (List.splitOn_ne_nil _ _)
      | cons part parts => rfl

theorem isHostLabel_iff : Recognizer.isHostLabel label = true ↔ IsLabel label := by
  unfold Recognizer.isHostLabel Recognizer.isAlnum
  simp only [Bool.and_eq_true, decide_eq_true_eq, List.all_eq_true, Bool.or_eq_true, beq_iff_eq,
    bne_iff_ne]
  constructor
  · rintro ⟨⟨⟨⟨hnonempty, hshort⟩, hcharacters⟩, hfirst⟩, hlast⟩
    exact ⟨hnonempty, hshort, hcharacters, hfirst, hlast⟩
  · rintro ⟨hnonempty, hshort, hcharacters, hfirst, hlast⟩
    exact ⟨⟨⟨⟨hnonempty, hshort⟩, hcharacters⟩, hfirst⟩, hlast⟩

theorem withoutLastPoint_append (name : List Char) :
    Recognizer.withoutLastPoint (name ++ ['.']) = name := by
  simp [Recognizer.withoutLastPoint]

theorem withoutLastPoint_spec (cs : List Char) :
    cs = Recognizer.withoutLastPoint cs ∨ cs = Recognizer.withoutLastPoint cs ++ ['.'] := by
  rcases List.eq_nil_or_concat cs with rfl | ⟨name, c, rfl⟩
  · exact .inl rfl
  · by_cases hc : c = '.'
    · subst hc
      rw [List.concat_eq_append, withoutLastPoint_append]
      exact .inr rfl
    · left
      simp [Recognizer.withoutLastPoint, hc]

theorem isHostname_iff : Recognizer.isHostname cs = true ↔ IsHostname cs := by
  have hrecognized : Recognizer.isHostname cs = true ↔
      (Recognizer.withoutLastPoint cs).length ≤ 253 ∧
        ∀ label ∈ (Recognizer.withoutLastPoint cs).splitOn '.', IsLabel label := by
    unfold Recognizer.isHostname
    simp only [Bool.and_eq_true, decide_eq_true_eq, List.all_eq_true, splitAll_eq_splitOn,
      isHostLabel_iff]
  rw [hrecognized]
  constructor
  · rintro ⟨hshort, hlabels⟩
    exact ⟨_, ⟨nonempty_of_labels hlabels, hshort, hlabels⟩, withoutLastPoint_spec cs⟩
  · rintro ⟨name, hname, rfl | rfl⟩
    · -- A name does not end with a point.
      rcases withoutLastPoint_spec cs with h | h
      · rw [← h]
        exact ⟨hname.short, hname.labels⟩
      · exact absurd (h ▸ hname.labels) not_labels_of_point
    · rw [withoutLastPoint_append]
      exact ⟨hname.short, hname.labels⟩

/-! ## The pattern -/

/-- A letter or digit. -/
def alnumPattern : Pattern := set false false [.range 'a' 'z', .range 'A' 'Z', .range '0' '9']

/-- A letter, digit or hyphen. -/
def innerPattern : Pattern :=
  set false false [.range 'a' 'z', .range 'A' 'Z', .range '0' '9', .single '-']

/-- What may follow the first character of a label. -/
def endPattern : Pattern := rep (seq (rep innerPattern 0 (some 61)) alnumPattern) 0 (some 1)

/-- A further label after a point. -/
def nextPattern : Pattern := seq (char false '.') (seq alnumPattern endPattern)

/-- The labels of a name, and perhaps a point. -/
def namePattern : Pattern :=
  seq alnumPattern (seq endPattern (seq (rep nextPattern 0 none) (rep (char false '.') 0 (some 1))))

/-- One to 253 characters, and perhaps a point. -/
def lengthPattern : Pattern :=
  seq (rep (any false) 1 (some 253)) (seq (rep (char false '.') 0 (some 1)) (anchor .lastLineEnd))

/-- What the text of the pattern writes. -/
def pattern : Pattern := seq (ahead false lengthPattern) namePattern

theorem language_alnum : alnumPattern.language = letter Char.isAlphanum := by
  have htest : setHolds false false [.range 'a' 'z', .range 'A' 'Z', .range '0' '9'] =
      Char.isAlphanum := by
    funext c
    simp only [setHolds, SetItem.holds, isAlphanum_eq]
    grind
  rw [alnumPattern, language, htest]

theorem language_inner : innerPattern.language = letter fun c => c.isAlphanum || c == '-' := by
  have htest : setHolds false false [.range 'a' 'z', .range 'A' 'Z', .range '0' '9', .single '-'] =
      fun c => c.isAlphanum || c == '-' := by
    funext c
    simp only [setHolds, SetItem.holds, isAlphanum_eq]
    grind
  rw [innerPattern, language, htest]

/-- After its first character a label ends, or there are up to 61 further ones and a last one. -/
theorem mem_end {rest : List Char} : rest ∈ endPattern.language ↔ rest = [] ∨
    ∃ mid c, rest = mid ++ [c] ∧ mid.length ≤ 61 ∧
      (∀ d ∈ mid, d.isAlphanum = true ∨ d = '-') ∧ c.isAlphanum = true := by
  rw [endPattern, mem_optional, mem_seq]
  simp only [mem_language_run language_inner, language_alnum, Bool.or_eq_true, beq_iff_eq]
  refine or_congr_right ⟨?_, ?_⟩
  · rintro ⟨mid, -, rfl, ⟨-, hlength, hmid⟩, c, rfl, hc⟩
    exact ⟨mid, c, rfl, hlength 61 rfl, hmid, hc⟩
  · rintro ⟨mid, c, rfl, hlength, hmid, hc⟩
    exact ⟨mid, [c], rfl, ⟨Nat.zero_le _, by simpa using hlength, hmid⟩, c, rfl, hc⟩

theorem ne_hyphen (hc : c.isAlphanum = true) : c ≠ '-' := by
  rintro rfl
  exact absurd hc (by decide)

theorem mem_label : label ∈ (seq alnumPattern endPattern).language ↔ IsLabel label := by
  rw [mem_letter_seq language_alnum]
  simp only [mem_end]
  constructor
  · rintro ⟨c, -, rfl, hc, rfl | ⟨mid, d, rfl, hlength, hmid, hd⟩⟩
    · have hne := ne_hyphen hc
      exact ⟨le_rfl, by simp, by simp [hc], by simpa using hne, by simpa using hne⟩
    · refine ⟨by simp, ?_, ?_, by simpa using ne_hyphen hc, ?_⟩
      · simp only [List.length_cons, List.length_append, List.length_nil]
        omega
      · exact List.forall_mem_cons.2 ⟨.inl hc,
          List.forall_mem_append.2 ⟨hmid, List.forall_mem_singleton.2 (.inl hd)⟩⟩
      · simpa [List.getLast?_cons] using ne_hyphen hd
  · rintro ⟨hnonempty, hshort, hcharacters, hfirst, hlast⟩
    obtain ⟨c, rest, rfl⟩ := List.exists_cons_of_length_pos hnonempty
    obtain ⟨hc, hrest⟩ := List.forall_mem_cons.1 hcharacters
    refine ⟨c, rest, rfl, hc.resolve_right (by simpa using hfirst), ?_⟩
    rcases List.eq_nil_or_concat rest with rfl | ⟨mid, d, rfl⟩
    · exact .inl rfl
    · rw [List.concat_eq_append] at *
      obtain ⟨hmid, hd⟩ := List.forall_mem_append.1 hrest
      have hne : d ≠ '-' := by simpa [List.getLast?_cons] using hlast
      refine .inr ⟨mid, d, rfl, ?_, hmid, (List.forall_mem_singleton.1 hd).resolve_right hne⟩
      simp only [List.length_cons, List.length_append, List.length_nil] at hshort
      omega

/-- Parts that start with a point are labels with points before them. -/
theorem forall_parts {parts : List (List Char)} :
    (∀ x ∈ parts, ∃ label, x = '.' :: label ∧ IsLabel label) ↔
      ∃ labels : List (List Char), parts = labels.map ('.' :: ·) ∧ ∀ l ∈ labels, IsLabel l := by
  constructor
  · intro h
    induction parts with
    | nil => exact ⟨[], rfl, nofun⟩
    | cons part parts ih =>
      obtain ⟨⟨label, rfl, hlabel⟩, hparts⟩ := List.forall_mem_cons.1 h
      obtain ⟨labels, rfl, hlabels⟩ := ih hparts
      exact ⟨label :: labels, rfl, List.forall_mem_cons.2 ⟨hlabel, hlabels⟩⟩
  · rintro ⟨labels, rfl, h⟩ x hx
    obtain ⟨label, hlabel, rfl⟩ := List.mem_map.1 hx
    exact ⟨label, rfl, h label hlabel⟩

/-- The labels of a pattern are those between the points. -/
theorem mem_name : cs ∈ namePattern.language ↔
    ∃ name, (∀ label ∈ name.splitOn '.', IsLabel label) ∧ (cs = name ∨ cs = name ++ ['.']) := by
  have hname : namePattern.language = (seq (seq (seq alnumPattern endPattern)
      (rep nextPattern 0 none)) (rep (char false '.') 0 (some 1))).language := by
    simp only [namePattern, language_seq, mul_assoc]
  have hlabels (name : List Char) :
      name ∈ (seq (seq alnumPattern endPattern) (rep nextPattern 0 none)).language ↔
        ∀ label ∈ name.splitOn '.', IsLabel label := by
    rw [exists_labels, mem_seq]
    simp only [mem_label, mem_star, nextPattern, mem_char_seq, forall_parts]
    constructor
    · rintro ⟨label, -, rfl, hlabel, -, rfl, labels, rfl, hlabels⟩
      exact ⟨label, labels, rfl, List.forall_mem_cons.2 ⟨hlabel, hlabels⟩⟩
    · rintro ⟨label, labels, rfl, h⟩
      obtain ⟨hlabel, hlabels⟩ := List.forall_mem_cons.1 h
      exact ⟨label, _, rfl, hlabel, _, rfl, labels, rfl, hlabels⟩
  rw [hname, mem_seq]
  simp only [hlabels, mem_optional, mem_char]
  constructor
  · rintro ⟨name, -, rfl, hname, rfl | rfl⟩
    · exact ⟨name, hname, .inl (List.append_nil name)⟩
    · exact ⟨name, hname, .inr rfl⟩
  · rintro ⟨name, hname, rfl | rfl⟩
    · exact ⟨cs, [], (List.append_nil cs).symm, hname, .inl rfl⟩
    · exact ⟨name, ['.'], rfl, hname, .inr rfl⟩

/-- What is looked for ahead of a text of one line is its length. -/
theorem matches_length (hcs : '\n' ∉ cs) :
    (∃ x y, cs ++ [] = x ++ y ∧ lengthPattern.Matches [] x y) ↔
      ∃ name, 1 ≤ name.length ∧ name.length ≤ 253 ∧ (cs = name ∨ cs = name ++ ['.']) := by
  have hany {read : List Char} : read ∈ (rep (any false) 1 (some 253)).language ↔
      1 ≤ read.length ∧ read.length ≤ 253 ∧ '\n' ∉ read := by
    rw [mem_language_run (p := any false) rfl]
    simp only [Option.mem_def, Option.some.injEq, forall_eq', Bool.false_or, bne_iff_ne]
    grind
  have hpoint {read : List Char} :
      read ∈ (rep (char false '.') 0 (some 1)).language ↔ read = [] ∨ read = ['.'] := by
    rw [mem_optional, mem_char]
  have hend {before after : List Char} :
      (anchor .lastLineEnd).Matches before [] after ↔ after = [] ∨ after = ['\n'] := by
    simp [Pattern.Matches, Cursor.satisfies]
  rw [List.append_nil, lengthPattern]
  constructor
  · rintro ⟨x, y, rfl, h⟩
    obtain ⟨name, rest, rfl, hname, h⟩ := (matches_seq_local rfl).1 h
    obtain ⟨point, rest, rfl, hpoint', h⟩ := (matches_seq_local rfl).1 h
    obtain rfl : rest = [] := h.1
    obtain rfl : y = [] := by
      rcases hend.1 h with rfl | rfl
      · rfl
      · simp at hcs
    obtain ⟨hpos, hshort, -⟩ := hany.1 hname
    refine ⟨name, hpos, hshort, ?_⟩
    rcases hpoint.1 hpoint' with rfl | rfl
    · exact .inl (by simp)
    · exact .inr (by simp)
  · rintro ⟨name, hpos, hshort, h⟩
    have hname : '\n' ∉ name := by
      rcases h with rfl | rfl
      · exact hcs
      · exact fun hmem => hcs (List.mem_append_left _ hmem)
    obtain ⟨point, hpoint', rfl⟩ : ∃ point, point ∈ (rep (char false '.') 0 (some 1)).language ∧
        cs = name ++ point := by
      rcases h with rfl | rfl
      · exact ⟨[], hpoint.2 (.inl rfl), (List.append_nil cs).symm⟩
      · exact ⟨['.'], hpoint.2 (.inr rfl), rfl⟩
    refine ⟨name ++ point, [], (List.append_nil _).symm, (matches_seq_local rfl).2
      ⟨name, point, rfl, hany.2 ⟨hpos, hshort, hname⟩, (matches_seq_local rfl).2
        ⟨point, [], (List.append_nil point).symm, hpoint', hend.2 (.inl rfl)⟩⟩⟩

theorem matches_iff : pattern.Matches [] cs [] ↔ IsHostname cs := by
  have hline {name : List Char} (hlabels : ∀ label ∈ name.splitOn '.', IsLabel label)
      (hcs : cs = name ∨ cs = name ++ ['.']) : '\n' ∉ cs := by
    have hname := newline_not_mem hlabels
    rcases hcs with rfl | rfl
    · exact hname
    · simpa using hname
  rw [pattern, matches_ahead_seq, matches_language rfl, mem_name]
  constructor
  · rintro ⟨hlength, name, hlabels, hcs⟩
    obtain ⟨read, -, hshort, hread⟩ := (matches_length (hline hlabels hcs)).1 hlength
    refine ⟨name, ⟨nonempty_of_labels hlabels, ?_, hlabels⟩, hcs⟩
    rcases hcs with rfl | rfl
    · rcases hread with rfl | rfl
      · exact hshort
      · exact absurd hlabels not_labels_of_point
    · rcases hread with rfl | hread
      · rw [List.length_append] at hshort
        omega
      · rwa [List.append_cancel_right hread]
  · rintro ⟨name, hname, hcs⟩
    refine ⟨(matches_length (hline hname.labels hcs)).2 ?_, name, hname.labels, hcs⟩
    exact ⟨name, hname.nonempty, hname.short, hcs⟩

end Hostname

/-! ## The format -/

variable {host : Host} {ctx : Context} {σ τ : Session} {s : Schema Value}
  {coerce abort error : Value}

open Hostname in
/-- A node of the format accepts the host names and no other texts, and its pattern matches the same
ones. -/
theorem hostname_texts
    (hs : (Construct.format .hostname coerce abort { error := error }).answer τ = .ok s)
    (hown : σ.kinds.evaluator? (.str "string") = .ok (.builtin .evaluateNode)) :
    s.AcceptsTexts host ctx σ IsHostname ∧ StringFormat.hostname.Shows IsHostname := by
  constructor
  · exact format_accepts hs hown fun t => isHostname_iff
  · refine ⟨_, pattern, rfl, by cbv, fun t => ?_⟩
    rw [matchesWhole_iff rfl, matches_iff]

open Hostname Stock in
/-- A point may stand at the end. -/
theorem hostname_texts_point :
    (safeParse (hostThat false) {} StringFormat.hostname.node (.str "a-1.example.")).answer {} =
      .ok (.accepted (.str "a-1.example.")) := by
  have haccepts : StringFormat.hostname.node.AcceptsTexts (hostThat false) {} {} IsHostname :=
    (hostname_texts (StringFormat.node_made .hostname) rfl).1
  exact (haccepts _ _).2 ⟨rfl, isHostname_iff.1 (by decide)⟩

end Assay
