import Assay.Pattern.Matcher
import Mathlib.Computability.Language

/-!
# What a match is

A pattern without captures says of a text, between what stands before it and after it, whether it
matches (`Pattern.Matches`). The matcher finds the ends of exactly these matches
(`Pattern.mem_ends`), although it lists each end once and repeats only while something is read. A
pattern that does not look around matches the texts of a language (`Pattern.matches_language`), so
the whole texts that such a pattern matches are those of its language
(`Pattern.matchesWhole_language`).
-/

namespace Assay

/-! ## Occurrences -/

/-- A statement about a text with what stands before it, nearest first, and after it. -/
abbrev Occurrence := List Char → List Char → List Char → Prop

namespace Occurrence

/-- One occurrence and then another. -/
def followed (m m' : Occurrence) : Occurrence := fun before read after =>
  ∃ x y, read = x ++ y ∧ m before x (y ++ after) ∧ m' (x.reverse ++ before) y after

/-- An occurrence several times in turn. -/
def copies (m : Occurrence) : Nat → Occurrence
  | 0 => fun _ read _ => read = []
  | n + 1 => m.followed (m.copies n)

/-- An occurrence of at least one character. -/
def proper (m : Occurrence) : Occurrence := fun before read after =>
  read ≠ [] ∧ m before read after

end Occurrence

namespace Pattern

/-- The pattern captures nothing, does not look back, and its bounds are in order. -/
def isPlain : Pattern → Bool
  | empty | char .. | any _ | set .. | anchor _ => true
  | seq p q | alt p q => p.isPlain && q.isPlain
  | rep p low high => p.isPlain && high.all (low ≤ ·)
  | ahead _ p => p.isPlain
  | group .. | backref .. | behind .. => false

/-- The pattern matches a text where it stands. Captures are not followed. -/
def Matches : Pattern → Occurrence
  | empty, _, read, _ => read = []
  | char fold c, _, read, _ => ∃ d, read = [d] ∧ (if fold then sameLetter c d else c == d) = true
  | any newline, _, read, _ => ∃ d, read = [d] ∧ (newline || d != '\n') = true
  | set fold negated items, _, read, _ => ∃ d, read = [d] ∧ setHolds fold negated items d = true
  | anchor a, before, read, after => read = [] ∧ (Cursor.mk before after []).satisfies a = true
  | seq p q, before, read, after => Occurrence.followed p.Matches q.Matches before read after
  | alt p q, before, read, after => p.Matches before read after ∨ q.Matches before read after
  | rep p low high, before, read, after =>
    ∃ n, low ≤ n ∧ (∀ h ∈ high, n ≤ h) ∧ Occurrence.copies p.Matches n before read after
  | ahead negated p, before, read, after =>
    read = [] ∧ ((∃ x y, after = x ++ y ∧ p.Matches before x y) ↔ negated = false)
  | group .., _, _, _ | backref .., _, _, _ | behind .., _, _, _ => False

end Pattern

/-! ## Moving over a text -/

namespace Cursor

/-- The second cursor stands behind the first by the characters read. -/
structure Reads (k : Cursor) (read : List Char) (j : Cursor) : Prop where
  before : j.before = read.reverse ++ k.before
  after : k.after = read ++ j.after
  groups : j.groups = k.groups

/-- An occurrence leads from one cursor to the other. -/
def Leads (m : Occurrence) (k j : Cursor) : Prop :=
  ∃ read, k.Reads read j ∧ m k.before read j.after

variable {i j k : Cursor} {ks : List Cursor} {m m' : Occurrence} {read more : List Char} {n : Nat}
  {f : Cursor → List Cursor}

theorem Reads.refl (k : Cursor) : k.Reads [] k := ⟨rfl, rfl, rfl⟩

theorem Reads.trans (hi : k.Reads read i) (hj : i.Reads more j) : k.Reads (read ++ more) j where
  before := by rw [hj.before, hi.before, List.reverse_append, List.append_assoc]
  after := by rw [hi.after, hj.after, List.append_assoc]
  groups := hj.groups.trans hi.groups

theorem Reads.eq_of_nil (h : k.Reads [] j) : j = k := by
  obtain ⟨hbefore, hafter, hgroups⟩ := h
  cases j
  cases k
  simp_all

/-- How much is left tells apart the cursors that are reached from one. -/
theorem Reads.eq_of_length (hi : k.Reads read i) (hj : k.Reads more j)
    (hlength : i.after.length = j.after.length) : i = j := by
  obtain ⟨hread, hafter⟩ := List.append_inj' (hi.after.symm.trans hj.after) hlength
  cases i
  cases j
  obtain ⟨hbefore, -, hgroups⟩ := hi
  obtain ⟨hbefore', -, hgroups'⟩ := hj
  simp_all

theorem Leads.length_le (h : Leads m k j) : j.after.length ≤ k.after.length := by
  obtain ⟨read, hreads, -⟩ := h
  rw [hreads.after, List.length_append]
  omega

/-- A text that is read in two parts is read over the cursor between them. -/
theorem Reads.split (h : k.Reads (read ++ more) j) :
    ∃ i, k.Reads read i ∧ i.Reads more j := by
  refine ⟨⟨read.reverse ++ k.before, more ++ j.after, k.groups⟩, ⟨rfl, ?_, rfl⟩,
    ⟨?_, rfl, h.groups⟩⟩
  · rw [h.after, List.append_assoc]
  · rw [h.before, List.reverse_append, List.append_assoc]

theorem leads_followed : Leads (m.followed m') k j ↔ ∃ i, Leads m k i ∧ Leads m' i j := by
  constructor
  · rintro ⟨-, hreads, x, y, rfl, hx, hy⟩
    obtain ⟨i, hi, hj⟩ := hreads.split
    refine ⟨i, ⟨x, hi, ?_⟩, ⟨y, hj, ?_⟩⟩
    · rwa [hj.after]
    · rwa [hi.before]
  · rintro ⟨i, ⟨x, hi, hx⟩, ⟨y, hj, hy⟩⟩
    refine ⟨x ++ y, hi.trans hj, x, y, rfl, ?_, ?_⟩
    · rwa [← hj.after]
    · rwa [← hi.before]

theorem leads_copies_zero : Leads (m.copies 0) k j ↔ j = k := by
  constructor
  · rintro ⟨-, hreads, rfl⟩
    exact hreads.eq_of_nil
  · rintro rfl
    exact ⟨[], .refl j, rfl⟩

theorem leads_copies_succ :
    Leads (m.copies (n + 1)) k j ↔ ∃ i, Leads m k i ∧ Leads (m.copies n) i j :=
  leads_followed

theorem leads_copies_add {a b : Nat} :
    Leads (m.copies (a + b)) k j ↔ ∃ i, Leads (m.copies a) k i ∧ Leads (m.copies b) i j := by
  induction a generalizing k with
  | zero => simp [leads_copies_zero]
  | succ a ih =>
    rw [show a + 1 + b = a + b + 1 by omega, leads_copies_succ]
    simp only [ih, leads_copies_succ]
    grind

/-- Copies that read nothing can be left out, and then there are no more than characters read. -/
theorem leads_copies_proper (h : Leads (m.copies n) k j) :
    ∃ c ≤ n, c + j.after.length ≤ k.after.length ∧ Leads (m.proper.copies c) k j := by
  induction n generalizing k with
  | zero =>
    rw [leads_copies_zero] at h
    exact ⟨0, le_rfl, by rw [h, Nat.zero_add], leads_copies_zero.2 h⟩
  | succ n ih =>
    obtain ⟨i, ⟨read, hi, hread⟩, hj⟩ := leads_copies_succ.1 h
    obtain ⟨c, hc, hlength, hcopies⟩ := ih hj
    by_cases hnil : read = []
    · subst hnil
      obtain rfl := hi.eq_of_nil
      exact ⟨c, by omega, hlength, hcopies⟩
    · refine ⟨c + 1, by omega, ?_, leads_copies_succ.2 ⟨i, ⟨read, hi, hnil, hread⟩, hcopies⟩⟩
      have hpos := List.length_pos_of_ne_nil hnil
      have hafter := congrArg List.length hi.after
      rw [List.length_append] at hafter
      omega

theorem leads_of_proper {c : Nat} (h : Leads (m.proper.copies c) k j) : Leads (m.copies c) k j := by
  induction c generalizing k with
  | zero => exact h
  | succ c ih =>
    obtain ⟨i, ⟨read, hi, -, hread⟩, hj⟩ := leads_copies_succ.1 h
    exact leads_copies_succ.2 ⟨i, ⟨read, hi, hread⟩, ih hj⟩

/-- A bounded repetition is the required copies and then proper ones, of which there are at most as
many as characters left. -/
theorem leads_bounded {low : Nat} {high : Option Nat} (hbounds : ∀ h ∈ high, low ≤ h) :
    (∃ n, low ≤ n ∧ (∀ h ∈ high, n ≤ h) ∧ Leads (m.copies n) k j) ↔
      ∃ i, Leads (m.copies low) k i ∧
        ∃ c ≤ (match high with
          | some h => min (h - low) k.after.length
          | none => k.after.length), Leads (m.proper.copies c) i j := by
  constructor
  · rintro ⟨n, hlow, hhigh, hcopies⟩
    obtain ⟨d, rfl⟩ := Nat.exists_eq_add_of_le hlow
    obtain ⟨i, hi, hj⟩ := leads_copies_add.1 hcopies
    obtain ⟨c, hc, hlength, hproper⟩ := leads_copies_proper hj
    refine ⟨i, hi, c, ?_, hproper⟩
    have hleft := hi.length_le
    cases high with
    | none => exact (Nat.le_add_right ..).trans (hlength.trans hleft)
    | some h =>
      have := hhigh h rfl
      exact le_min (by omega) (by omega)
  · rintro ⟨i, hi, c, hc, hproper⟩
    refine ⟨low + c, by omega, ?_, leads_copies_add.2 ⟨i, hi, leads_of_proper hproper⟩⟩
    rintro h rfl
    have hlow := hbounds h rfl
    have hmore := hc.trans (min_le_left ..)
    omega

/-! ## Lists of cursors -/

/-- All of the cursors are reached from one. -/
def AllFrom (k : Cursor) (ks : List Cursor) : Prop := ∀ j ∈ ks, ∃ read, k.Reads read j

/-- A step finds the ends of an occurrence. -/
def Finds (f : Cursor → List Cursor) (m : Occurrence) : Prop := ∀ k j, j ∈ f k ↔ Leads m k j

theorem Finds.allFrom (h : Finds f m) : k.AllFrom (f k) := by
  intro j hj
  obtain ⟨read, hread, -⟩ := (h k j).1 hj
  exact ⟨read, hread⟩

theorem AllFrom.flatMap (hks : k.AllFrom ks) (hf : Finds f m) : k.AllFrom (ks.flatMap f) := by
  intro j hj
  obtain ⟨i, hi, hj⟩ := List.mem_flatMap.1 hj
  obtain ⟨read, hread⟩ := hks i hi
  obtain ⟨more, hmore⟩ := hf.allFrom j hj
  exact ⟨_, hread.trans hmore⟩

/-- Listing the cursors of one text once each keeps them all. -/
theorem mem_distinct (hks : k.AllFrom ks) : j ∈ distinct ks ↔ j ∈ ks := by
  have hfold (ks acc : List Cursor) (hks : k.AllFrom ks) (hacc : k.AllFrom acc) :
      j ∈ ks.foldl (fun acc k =>
        if acc.any fun j => j.after.length == k.after.length && j.groups == k.groups then acc
        else acc ++ [k]) acc ↔ j ∈ acc ∨ j ∈ ks := by
    induction ks generalizing acc with
    | nil => simp
    | cons i ks ih =>
      obtain ⟨hi, hks⟩ := List.forall_mem_cons.1 hks
      rw [List.foldl_cons]
      split
      · rename_i hfound
        -- A cursor with as much left is the same cursor.
        have hmem : i ∈ acc := by
          obtain ⟨i', hi', hsame⟩ := List.any_eq_true.1 hfound
          simp only [Bool.and_eq_true, beq_iff_eq] at hsame
          obtain ⟨read, hread⟩ := hi
          obtain ⟨read', hread'⟩ := hacc i' hi'
          rwa [hread.eq_of_length hread' hsame.1.symm]
        rw [ih acc hks hacc]
        grind
      · rw [ih _ hks]
        · grind
        · intro i' hi'
          rcases List.mem_append.1 hi' with hi' | hi'
          · exact hacc i' hi'
          · rwa [List.mem_singleton.1 hi']
  simpa [distinct] using hfold ks [] hks nofun

theorem Finds.followed {g : Cursor → List Cursor} (hf : Finds f m) (hg : Finds g m') :
    Finds (fun k => distinct ((f k).flatMap g)) (m.followed m') := by
  intro k j
  rw [mem_distinct (hf.allFrom.flatMap hg), List.mem_flatMap, leads_followed]
  simp only [hf k, hg _ j]

theorem mem_repeatExactly (hf : Finds f m) (hks : k.AllFrom ks) :
    j ∈ repeatExactly f n ks ↔ ∃ i ∈ ks, Leads (m.copies n) i j := by
  induction n generalizing ks with
  | zero => simp [repeatExactly, leads_copies_zero]
  | succ n ih =>
    have hnext := hks.flatMap hf
    have hdistinct : k.AllFrom (distinct (ks.flatMap f)) :=
      fun j hj => hnext j ((mem_distinct hnext).1 hj)
    rw [repeatExactly, ih hdistinct]
    simp only [mem_distinct hnext, List.mem_flatMap, leads_copies_succ]
    constructor
    · rintro ⟨i', ⟨i, hi, hi'⟩, hj⟩
      exact ⟨i, hi, i', (hf i i').1 hi', hj⟩
    · rintro ⟨i, hi, i', hi', hj⟩
      exact ⟨i', ⟨i, hi, (hf i i').2 hi'⟩, hj⟩

theorem Finds.proper (hf : Finds f m) :
    Finds (fun k => (f k).filter fun j => j.after.length < k.after.length) m.proper := by
  intro k j
  rw [List.mem_filter, hf k j, decide_eq_true_eq]
  constructor
  · rintro ⟨⟨read, hreads, hread⟩, hlt⟩
    refine ⟨read, hreads, ?_, hread⟩
    rintro rfl
    rw [hreads.eq_of_nil] at hlt
    exact Nat.lt_irrefl _ hlt
  · rintro ⟨read, hreads, hne, hread⟩
    refine ⟨⟨read, hreads, hread⟩, ?_⟩
    have hpos := List.length_pos_of_ne_nil hne
    have hafter := congrArg List.length hreads.after
    rw [List.length_append] at hafter
    omega

theorem mem_repeatUpTo (hf : Finds f m) (hks : k.AllFrom ks) :
    j ∈ repeatUpTo f n ks ↔ ∃ i ∈ ks, ∃ c ≤ n, Leads (m.proper.copies c) i j := by
  induction n generalizing ks with
  | zero => simp [repeatUpTo, leads_copies_zero]
  | succ n ih =>
    have hnext := hks.flatMap hf.proper
    have hdistinct : k.AllFrom (distinct (ks.flatMap fun k => (f k).filter fun j =>
        j.after.length < k.after.length)) :=
      fun j hj => hnext j ((mem_distinct hnext).1 hj)
    -- One more copy starts from a cursor of the list and leads to one of the next list.
    have hstep : (∃ i ∈ ks, ∃ c ≤ n + 1, Leads (m.proper.copies c) i j) ↔
        j ∈ ks ∨ ∃ i' ∈ distinct (ks.flatMap fun k => (f k).filter fun j =>
          j.after.length < k.after.length), ∃ c ≤ n, Leads (m.proper.copies c) i' j := by
      simp only [mem_distinct hnext, List.mem_flatMap]
      constructor
      · rintro ⟨i, hi, c, hc, hj⟩
        cases c with
        | zero => exact .inl (leads_copies_zero.1 hj ▸ hi)
        | succ c =>
          obtain ⟨i', hi', hj⟩ := leads_copies_succ.1 hj
          exact .inr ⟨i', ⟨i, hi, (hf.proper i i').2 hi'⟩, c, by omega, hj⟩
      · rintro (hj | ⟨i', ⟨i, hi, hi'⟩, c, hc, hj⟩)
        · exact ⟨j, hj, 0, by omega, leads_copies_zero.2 rfl⟩
        · exact ⟨i, hi, c + 1, by omega, leads_copies_succ.2 ⟨i', (hf.proper i i').1 hi', hj⟩⟩
    rw [hstep, repeatUpTo]
    split
    · rename_i hempty
      rw [List.isEmpty_iff.1 hempty]
      simp
    · rw [List.mem_append, ih hdistinct]

theorem finds_step (p : Char → Bool) :
    Finds (·.step p) fun _ read _ => ∃ d, read = [d] ∧ p d = true := by
  intro k j
  show j ∈ k.step p ↔ _
  unfold step
  constructor
  · intro hj
    split at hj
    · cases hj
    · rename_i c rest hafter
      split at hj
      · rename_i hc
        rw [List.mem_singleton] at hj
        subst hj
        exact ⟨[c], ⟨rfl, hafter, rfl⟩, c, rfl, hc⟩
      · cases hj
  · rintro ⟨-, hreads, d, rfl, hd⟩
    rw [hreads.after]
    obtain ⟨hbefore, -, hgroups⟩ := hreads
    cases j
    simp_all

/-- A test of the place that reads nothing. -/
theorem finds_test {test : Cursor → Bool} {place : List Char → List Char → Prop}
    (h : ∀ k, test k = true ↔ place k.before k.after) :
    Finds (fun k => if test k then [k] else []) fun before read after =>
      read = [] ∧ place before after := by
  intro k j
  show j ∈ (if test k then [k] else []) ↔ _
  constructor
  · intro hj
    split at hj
    · rename_i htest
      rw [List.mem_singleton] at hj
      subst hj
      exact ⟨[], .refl j, rfl, (h j).1 htest⟩
    · cases hj
  · rintro ⟨-, hreads, rfl, hplace⟩
    obtain rfl := hreads.eq_of_nil
    rw [if_pos ((h j).2 hplace)]
    exact List.mem_singleton_self j

end Cursor

/-! ## The matcher -/

namespace Pattern

open Cursor

variable {p q : Pattern} {s : String} {before read after : List Char}

theorem satisfies_groups (k : Cursor) (a : Anchor) :
    k.satisfies a = (Cursor.mk k.before k.after []).satisfies a := by
  cases a <;> rfl

/-- The matcher finds the ends of the matches. -/
theorem finds_ends (hp : p.isPlain = true) : Finds p.ends p.Matches := by
  induction p with
  | empty =>
    intro k j
    constructor
    · intro hj
      obtain rfl := List.mem_singleton.1 hj
      exact ⟨[], .refl j, rfl⟩
    · rintro ⟨-, hreads, rfl⟩
      exact List.mem_singleton.2 hreads.eq_of_nil
  | char fold c => exact finds_step _
  | any newline => exact finds_step _
  | set fold negated items => exact finds_step _
  | anchor a => exact finds_test fun k => by rw [satisfies_groups]
  | seq p q ihp ihq =>
    obtain ⟨hp, hq⟩ := Bool.and_eq_true_iff.1 hp
    exact (ihp hp).followed (ihq hq)
  | alt p q ihp ihq =>
    obtain ⟨hp, hq⟩ := Bool.and_eq_true_iff.1 hp
    intro k j
    have hall : k.AllFrom (p.ends k ++ q.ends k) := by
      intro j hj
      rcases List.mem_append.1 hj with hj | hj
      · exact (ihp hp).allFrom j hj
      · exact (ihq hq).allFrom j hj
    rw [ends, mem_distinct hall, List.mem_append, ihp hp k j, ihq hq k j]
    simp only [Leads, Matches, and_or_left, exists_or]
  | rep p low high ih =>
    obtain ⟨hp, hbounds⟩ := Bool.and_eq_true_iff.1 hp
    replace hbounds : ∀ h ∈ high, low ≤ h := by
      rintro h rfl
      simpa using hbounds
    intro k j
    have hstart : k.AllFrom [k] := List.forall_mem_singleton.2 ⟨[], .refl k⟩
    have hfirst (i : Cursor) :
        i ∈ repeatExactly p.ends low [k] ↔ Leads (Occurrence.copies p.Matches low) k i := by
      rw [mem_repeatExactly (ih hp) hstart]
      simp
    have hfrom : k.AllFrom (repeatExactly p.ends low [k]) := by
      intro i hi
      obtain ⟨read, hread, -⟩ := (hfirst i).1 hi
      exact ⟨read, hread⟩
    have hfound (n : Nat) := fun j => mem_repeatUpTo (n := n) (j := j) (ih hp) hfrom
    have hall (n : Nat) : k.AllFrom (repeatUpTo p.ends n (repeatExactly p.ends low [k])) := by
      intro j hj
      obtain ⟨i, hi, c, -, more, hmore, -⟩ := (hfound n j).1 hj
      obtain ⟨read, hread⟩ := hfrom i hi
      exact ⟨_, hread.trans hmore⟩
    have hleads : Leads (rep p low high).Matches k j ↔
        ∃ n, low ≤ n ∧ (∀ h ∈ high, n ≤ h) ∧ Leads (Occurrence.copies p.Matches n) k j := by
      simp only [Leads, Matches]
      grind
    rw [hleads, leads_bounded hbounds]
    show j ∈ distinct (repeatUpTo p.ends _ (repeatExactly p.ends low [k])) ↔ _
    rw [mem_distinct (hall _), hfound]
    simp only [hfirst]
    cases high <;> rfl
  | ahead negated p ih =>
    have htest (k : Cursor) : (p.ends k).isEmpty = negated ↔
        ((∃ x y, k.after = x ++ y ∧ p.Matches k.before x y) ↔ negated = false) := by
      have hsome : (∃ x y, k.after = x ++ y ∧ p.Matches k.before x y) ↔
          (p.ends k).isEmpty = false := by
        rw [List.isEmpty_eq_false_iff_exists_mem]
        constructor
        · rintro ⟨x, y, hafter, hmatch⟩
          exact ⟨⟨x.reverse ++ k.before, y, k.groups⟩,
            (ih hp k _).2 ⟨x, ⟨rfl, hafter, rfl⟩, hmatch⟩⟩
        · rintro ⟨j, hj⟩
          obtain ⟨x, hreads, hmatch⟩ := (ih hp k j).1 hj
          exact ⟨x, j.after, hreads.after, hmatch⟩
      rw [hsome]
      cases (p.ends k).isEmpty <;> cases negated <;> simp
    -- What the look ahead leads to is the place itself, as nothing is captured.
    have hends : (ahead negated p).ends =
        fun k => if (p.ends k).isEmpty == negated then [k] else [] := by
      funext k
      rw [ends]
      split
      · rename_i hnone
        rw [hnone]
        cases negated <;> rfl
      · rename_i i rest hsome
        obtain ⟨read, hread⟩ := (ih hp).allFrom i (hsome ▸ List.mem_cons_self)
        rw [hsome, hread.groups]
        cases negated <;> rfl
    rw [hends]
    exact finds_test fun k => by rw [beq_iff_eq]; exact htest k
  | group | backref | behind => cases hp

/-- The matcher ends a match at a cursor exactly if a match leads there. -/
theorem mem_ends (hp : p.isPlain = true) {k j : Cursor} :
    j ∈ p.ends k ↔ ∃ read, k.Reads read j ∧ p.Matches k.before read j.after :=
  finds_ends hp k j

/-- A whole text is a match if it matches between nothing and nothing. -/
theorem matchesWhole_iff (hp : p.isPlain = true) :
    p.matchesWhole s = true ↔ p.Matches [] s.toList [] := by
  rw [matchesWhole, List.any_eq_true]
  constructor
  · rintro ⟨j, hj, hend⟩
    obtain ⟨read, hreads, hmatch⟩ := (mem_ends hp).1 hj
    obtain rfl : s.toList = read := by
      simpa [Cursor.start, List.isEmpty_iff.1 hend] using hreads.after
    rwa [List.isEmpty_iff.1 hend] at hmatch
  · intro hmatch
    refine ⟨⟨s.toList.reverse, [], []⟩, (mem_ends hp).2 ⟨s.toList, ⟨?_, ?_, rfl⟩, hmatch⟩, rfl⟩
    · exact (List.append_nil _).symm
    · exact (List.append_nil _).symm

/-! ## Languages -/

/-- The texts of one character that passes a test. -/
def letter (test : Char → Bool) : Language Char := {read | ∃ c, read = [c] ∧ test c = true}

/-- The pattern is about a text alone, wherever it stands. -/
def isLocal : Pattern → Bool
  | empty | char .. | any _ | set .. => true
  | seq p q | alt p q => p.isLocal && q.isLocal
  | rep p _ _ => p.isLocal
  | anchor _ | ahead .. | group .. | backref .. | behind .. => false

/-- The texts that a local pattern matches. -/
def language : Pattern → Language Char
  | empty => 1
  | char fold c => letter fun d => if fold then sameLetter c d else c == d
  | any newline => letter fun d => newline || d != '\n'
  | set fold negated items => letter (setHolds fold negated items)
  | seq p q => p.language * q.language
  | alt p q => p.language + q.language
  | rep p low high => {read | ∃ n, low ≤ n ∧ (∀ h ∈ high, n ≤ h) ∧ read ∈ p.language ^ n}
  | anchor _ | ahead .. | group .. | backref .. | behind .. => 0

section

variable {test : Char → Bool} {l : Language Char} {n low : Nat} {high : Option Nat}

theorem copies_language {m : Occurrence}
    (hm : ∀ before read after, m before read after ↔ read ∈ l) :
    m.copies n before read after ↔ read ∈ l ^ n := by
  induction n generalizing before read with
  | zero => rw [pow_zero, Language.mem_one, Occurrence.copies]
  | succ n ih =>
    rw [pow_succ', Language.mem_mul, Occurrence.copies, Occurrence.followed]
    constructor
    · rintro ⟨x, y, rfl, hx, hy⟩
      exact ⟨x, (hm ..).1 hx, y, ih.1 hy, rfl⟩
    · rintro ⟨x, hx, y, hy, rfl⟩
      exact ⟨x, y, rfl, (hm ..).2 hx, ih.2 hy⟩

/-- Where a text stands is nothing to a local pattern. -/
theorem matches_language (hp : p.isLocal = true) :
    p.Matches before read after ↔ read ∈ p.language := by
  induction p generalizing before read after with
  | empty | char | any | set => rfl
  | seq p q ihp ihq =>
    obtain ⟨hp, hq⟩ := Bool.and_eq_true_iff.1 hp
    rw [language, Language.mem_mul, Matches, Occurrence.followed]
    constructor
    · rintro ⟨x, y, rfl, hx, hy⟩
      exact ⟨x, (ihp hp).1 hx, y, (ihq hq).1 hy, rfl⟩
    · rintro ⟨x, hx, y, hy, rfl⟩
      exact ⟨x, y, rfl, (ihp hp).2 hx, (ihq hq).2 hy⟩
  | alt p q ihp ihq =>
    obtain ⟨hp, hq⟩ := Bool.and_eq_true_iff.1 hp
    rw [language, Language.mem_add, Matches, ihp hp, ihq hq]
  | rep p low high ih =>
    exact exists_congr fun n => and_congr_right fun _ => and_congr_right fun _ =>
      copies_language fun _ _ _ => ih hp
  | anchor | ahead | group | backref | behind => cases hp

/-- After a local pattern the rest goes on from where it ends. -/
theorem matches_seq_local (hp : p.isLocal = true) : (seq p q).Matches before read after ↔
    ∃ x y, read = x ++ y ∧ x ∈ p.language ∧ q.Matches (x.reverse ++ before) y after := by
  rw [Matches, Occurrence.followed]
  simp only [matches_language hp]

/-- A look ahead is at the same text as what follows it. -/
theorem matches_ahead_seq : (seq (ahead false p) q).Matches before read after ↔
    (∃ x y, read ++ after = x ++ y ∧ p.Matches before x y) ∧ q.Matches before read after := by
  rw [Matches, Occurrence.followed]
  simp only [Matches, iff_true]
  constructor
  · rintro ⟨-, y, rfl, ⟨rfl, hp⟩, hq⟩
    exact ⟨hp, hq⟩
  · rintro ⟨hp, hq⟩
    exact ⟨[], read, rfl, ⟨rfl, hp⟩, hq⟩

/-- A local pattern matches the whole texts of its language. -/
theorem matchesWhole_language (hp : p.isPlain = true) (hlocal : p.isLocal = true) :
    p.matchesWhole s = true ↔ s.toList ∈ p.language :=
  (matchesWhole_iff hp).trans (matches_language hlocal)

theorem mem_letter_mul :
    read ∈ letter test * l ↔ ∃ c rest, read = c :: rest ∧ test c = true ∧ rest ∈ l := by
  rw [Language.mem_mul]
  constructor
  · rintro ⟨-, ⟨c, rfl, hc⟩, rest, hrest, rfl⟩
    exact ⟨c, rest, rfl, hc, hrest⟩
  · rintro ⟨c, rest, rfl, hc, hrest⟩
    exact ⟨[c], ⟨c, rfl, hc⟩, rest, hrest, rfl⟩

theorem mem_letter_pow :
    read ∈ letter test ^ n ↔ read.length = n ∧ ∀ c ∈ read, test c = true := by
  induction n generalizing read with
  | zero =>
    rw [pow_zero, Language.mem_one, List.length_eq_zero_iff]
    constructor
    · rintro rfl
      exact ⟨rfl, nofun⟩
    · exact And.left
  | succ n ih =>
    rw [pow_succ', mem_letter_mul]
    constructor
    · rintro ⟨c, rest, rfl, hc, hrest⟩
      obtain ⟨hlength, hall⟩ := ih.1 hrest
      exact ⟨congrArg (· + 1) hlength, List.forall_mem_cons.2 ⟨hc, hall⟩⟩
    · rintro ⟨hlength, hall⟩
      obtain ⟨c, rest, rfl⟩ := List.exists_cons_of_length_eq_add_one hlength
      obtain ⟨hc, hrest⟩ := List.forall_mem_cons.1 hall
      exact ⟨c, rest, rfl, hc, ih.2 ⟨Nat.succ.inj hlength, hrest⟩⟩

/-- A repeated character is a run of characters. -/
theorem mem_language_run (hp : p.language = letter test) :
    read ∈ (rep p low high).language ↔
      low ≤ read.length ∧ (∀ h ∈ high, read.length ≤ h) ∧ ∀ c ∈ read, test c = true := by
  show (∃ n, low ≤ n ∧ (∀ h ∈ high, n ≤ h) ∧ read ∈ p.language ^ n) ↔ _
  simp only [hp, mem_letter_pow]
  grind

/-- A number of copies. -/
theorem language_exactly (p : Pattern) (n : Nat) :
    (rep p n (some n)).language = p.language ^ n := by
  ext read
  constructor
  · rintro ⟨m, hlow, hhigh, hread⟩
    obtain rfl : m = n := le_antisymm (hhigh n rfl) hlow
    exact hread
  · intro hread
    exact ⟨n, le_rfl, by simp, hread⟩

theorem language_seq (p q : Pattern) : (seq p q).language = p.language * q.language := rfl

theorem mem_seq : read ∈ (seq p q).language ↔
    ∃ x y, read = x ++ y ∧ x ∈ p.language ∧ y ∈ q.language := by
  rw [language, Language.mem_mul]
  constructor
  · rintro ⟨x, hx, y, hy, rfl⟩
    exact ⟨x, y, rfl, hx, hy⟩
  · rintro ⟨x, y, rfl, hx, hy⟩
    exact ⟨x, hx, y, hy, rfl⟩

theorem mem_alt : read ∈ (alt p q).language ↔ read ∈ p.language ∨ read ∈ q.language :=
  Iff.rfl

theorem language_char (c : Char) : (char false c).language = letter (c == ·) := rfl

theorem mem_char {c : Char} : read ∈ (char false c).language ↔ read = [c] := by
  rw [language_char]
  constructor
  · rintro ⟨d, rfl, hd⟩
    rw [eq_of_beq hd]
  · rintro rfl
    exact ⟨c, rfl, beq_self_eq_true c⟩

theorem mem_char_seq {c : Char} : read ∈ (seq (char false c) q).language ↔
    ∃ rest, read = c :: rest ∧ rest ∈ q.language := by
  rw [mem_seq]
  simp only [mem_char]
  constructor
  · rintro ⟨-, rest, rfl, rfl, hrest⟩
    exact ⟨rest, rfl, hrest⟩
  · rintro ⟨rest, rfl, hrest⟩
    exact ⟨[c], rest, rfl, rfl, hrest⟩

theorem mem_letter_seq (hp : p.language = letter test) : read ∈ (seq p q).language ↔
    ∃ c rest, read = c :: rest ∧ test c = true ∧ rest ∈ q.language := by
  rw [language_seq, hp, mem_letter_mul]

/-- A text that may be there is there or not. -/
theorem mem_optional : read ∈ (rep p 0 (some 1)).language ↔ read = [] ∨ read ∈ p.language := by
  constructor
  · rintro ⟨n, -, hn, hread⟩
    obtain rfl | rfl : n = 0 ∨ n = 1 := by
      have := hn 1 rfl
      omega
    · exact .inl hread
    · exact .inr (by rwa [pow_one] at hread)
  · rintro (hread | hread)
    · exact ⟨0, le_rfl, by simp, hread⟩
    · exact ⟨1, Nat.zero_le 1, by simp, by rwa [pow_one]⟩

/-- Any number of copies are a list of matches. -/
theorem mem_star : read ∈ (rep p 0 none).language ↔
    ∃ parts : List (List Char), read = parts.flatten ∧ ∀ x ∈ parts, x ∈ p.language := by
  rw [← Language.mem_kstar, Language.kstar_eq_iSup_pow, Language.mem_iSup]
  constructor
  · rintro ⟨n, -, -, hread⟩
    exact ⟨n, hread⟩
  · rintro ⟨n, hread⟩
    exact ⟨n, Nat.zero_le n, nofun, hread⟩

end

end Pattern

end Assay
