import Assay.Document.Json
import Assay.Message.Path
import Assay.Proofs.Numerals
import Mathlib.Tactic.SplitIfs

/-!
# Quoted texts

A text in quotation marks is a JSON text in ASCII. A character stands in it by itself, or it has a
short escape, or its number, or the two halves of its number (`JsonText.Spells`,
`spells_asciiEscaped`). The reader of JSON takes each of these for the character (`Spells.read`), so
it gives a quoted text back up to its closing mark, whatever follows that (`text_asciiEscaped`).
-/

namespace Assay

/-! ## Hexadecimal digits -/

namespace Text

theorem hexDigits_one {n : Nat} (hn : n < 16) : hexDigits 1 n = [(Nat.digitChar n).toLower] := by
  simp [hexDigits, Nat.toDigits_of_lt_base hn]

theorem hexDigits_succ (w n : Nat) :
    hexDigits (w + 2) n = hexDigits (w + 1) (n / 16) ++ [(Nat.digitChar (n % 16)).toLower] := by
  have hbase : 1 < 16 := by decide
  have h := congrArg (List.map Char.toLower) (padded_toDigits hbase w n)
  simpa [hexDigits] using h

theorem length_hexDigits {n : Nat} (hn : n < 65536) : (hexDigits 4 n).length = 4 := by
  have hfirst : n / 16 / 16 / 16 < 16 := by omega
  simp only [hexDigits_succ, hexDigits_one hfirst]
  rfl

theorem length_unitEscape {n : Nat} (hn : n < 65536) : (unitEscape n).length = 6 := by
  rw [unitEscape, List.length_cons, List.length_cons, length_hexDigits hn]

end Text

namespace JsonText

open Text

theorem hexDigit?_digitChar :
    ∀ d < 16, hexDigit? (Nat.digitChar d).toLower = some d := by decide

/-- Four hexadecimal digits are read as the number that they were written for. -/
theorem unit?_hexDigits {n : Nat} (hn : n < 65536) (e : Char) (rest : List Char) :
    unit? (hexDigits 4 n ++ e :: rest) = some (n, e :: rest) := by
  have hfirst : n / 16 / 16 / 16 < 16 := by omega
  have hread (m : Nat) : hexDigit? (Nat.digitChar (m % 16)).toLower = some (m % 16) :=
    hexDigit?_digitChar _ (Nat.mod_lt m (by decide))
  simp only [hexDigits_succ, hexDigits_one hfirst, List.cons_append, List.nil_append, unit?,
    hexDigit?_digitChar _ hfirst, hread]
  show some (_, _) = _
  congr 2
  omega

/-! ## Spellings of characters -/

/-- The ways to spell a character inside quotation marks. -/
inductive Spells : List Char → Char → Prop
  | plain {c : Char} (hvisible : 32 ≤ c.toNat) (hquote : c ≠ '"') (hslash : c ≠ '\\') :
      Spells [c] c
  | short {e c : Char} (h : shortEscape? e = some c) : Spells ['\\', e] c
  | numbered {c : Char} (h : c.toNat < 65536) : Spells (unitEscape c.toNat) c
  | halved {c : Char} {high low : Nat} (hhigh : isHighHalf high = true)
      (hlow : isLowHalf low = true)
      (h : 0x10000 + (high - 0xD800) * 1024 + (low - 0xDC00) = c.toNat) :
      Spells (unitEscape high ++ unitEscape low) c

variable {c : Char} {cs rest : List Char} {high low : Nat}

theorem Spells.ne_nil (h : Spells cs c) : cs ≠ [] := by
  cases h <;> simp [unitEscape]

/-- No character has a number that is half of a pair. -/
theorem toNat_cases (c : Char) :
    c.toNat < 0xD800 ∨ 0xE000 ≤ c.toNat ∧ c.toNat < 0x110000 := by
  have hvalid : c.toNat < 55296 ∨ 57343 < c.toNat ∧ c.toNat < 1114112 := c.valid
  omega

theorem isHighHalf_iff : isHighHalf high = true ↔ 0xD800 ≤ high ∧ high < 0xDC00 := by
  simp [isHighHalf]

theorem isLowHalf_iff : isLowHalf low = true ↔ 0xDC00 ≤ low ∧ low < 0xE000 := by
  simp [isLowHalf]

theorem lt_of_isHighHalf (h : isHighHalf high = true) : high < 65536 := by
  have := isHighHalf_iff.1 h
  omega

theorem lt_of_isLowHalf (h : isLowHalf low = true) : low < 65536 := by
  have := isLowHalf_iff.1 h
  omega

theorem charOf_toNat (c : Char) : charOf c.toNat = c := by
  have hrange := toNat_cases c
  unfold charOf
  rw [if_neg, Char.ofNat_toNat]
  rw [Bool.or_eq_true, isHighHalf_iff, isLowHalf_iff]
  omega

/-- Quotation marks, backslashes and some controls have a short escape, visible ASCII characters
stand for themselves, and all others are spelled by number. -/
theorem spells_asciiEscaped (c : Char) : Spells (asciiEscaped c) c := by
  have hrange := toNat_cases c
  simp only [asciiEscaped, beq_iff_eq]
  split_ifs with hquote hslash _ _ _ _ _ hplain hfirst
  case pos | pos | pos | pos | pos | pos | pos =>
    subst c
    exact .short rfl
  · rw [Bool.and_eq_true, decide_eq_true_eq, decide_eq_true_eq] at hplain
    exact .plain hplain.1 hquote hslash
  · exact .numbered hfirst
  · refine .halved (isHighHalf_iff.2 ?_) (isLowHalf_iff.2 ?_) ?_ <;> omega

/-! ## Reading spellings -/

/-- A character by its own number: what follows is no second half, since there is no first one. -/
theorem numbered_single (hc : c.toNat < 65536) (hrest : rest ≠ []) (place : Nat) :
    JsonText.numbered ⟨hexDigits 4 c.toNat ++ rest, place⟩ = .ok (c, ⟨rest, place + 4⟩) := by
  obtain ⟨e, rest, rfl⟩ := List.exists_cons_of_ne_nil hrest
  have hrange := toNat_cases c
  have hhigh : isHighHalf c.toNat = false := by
    rw [Bool.eq_false_iff, ne_eq, isHighHalf_iff]
    omega
  unfold JsonText.numbered
  simp only [unit?_hexDigits hc, charOf_toNat, hhigh]
  split <;> rfl

/-- A character by the two halves of its number. -/
theorem numbered_halves (hhigh : isHighHalf high = true) (hlow : isLowHalf low = true)
    (h : 0x10000 + (high - 0xD800) * 1024 + (low - 0xDC00) = c.toNat) (hrest : rest ≠ [])
    (place : Nat) : JsonText.numbered ⟨hexDigits 4 high ++ (unitEscape low ++ rest), place⟩ =
      .ok (c, ⟨rest, place + 10⟩) := by
  obtain ⟨e, rest, rfl⟩ := List.exists_cons_of_ne_nil hrest
  have hfirst := lt_of_isHighHalf hhigh
  have hsecond := lt_of_isLowHalf hlow
  have hlength : ¬ (hexDigits 4 low ++ e :: rest).length < 5 := by
    rw [List.length_append, length_hexDigits hsecond, List.length_cons]
    omega
  unfold JsonText.numbered unitEscape
  simp only [List.cons_append, unit?_hexDigits hfirst, unit?_hexDigits hsecond, hhigh, hlow,
    hlength, decide_false, Bool.not_true, Bool.or_self, Bool.false_eq_true, if_false, if_true, h,
    Char.ofNat_toNat]

/-- A spelled character is read before something else, such as the closing mark. -/
theorem Spells.read (h : Spells cs c) (hrest : rest ≠ []) (start fuel : Nat) (found : List Char)
    (place : Nat) : characters start (fuel + 1) found ⟨cs ++ rest, place⟩ =
      characters start fuel (c :: found) ⟨rest, place + cs.length⟩ := by
  cases h with
  | plain hvisible hquote hslash =>
    have hcontrol : ¬ c.toNat < 32 := by omega
    simp [characters, hslash, hcontrol, Cursor.advance]
  | @short e _ h =>
    -- The letter of an escape by number is no short escape.
    have he : e ≠ 'u' := by
      rintro rfl
      cases h
    obtain ⟨d, rest, rfl⟩ := List.exists_cons_of_ne_nil hrest
    simp [characters, h, Cursor.advance]
  | numbered h =>
    show (JsonText.numbered ⟨hexDigits 4 c.toNat ++ rest, place + 2⟩ >>= _) = _
    rw [numbered_single h hrest, length_unitEscape h]
    rfl
  | @halved _ high low hhigh hlow h =>
    rw [List.append_assoc]
    show (JsonText.numbered ⟨hexDigits 4 high ++ (unitEscape low ++ rest), place + 2⟩ >>= _) = _
    rw [numbered_halves hhigh hlow h hrest, List.length_append,
      length_unitEscape (lt_of_isHighHalf hhigh), length_unitEscape (lt_of_isLowHalf hlow)]
    rfl

/-- A quoted text is read up to its closing mark, whatever follows. -/
theorem characters_asciiEscaped (start : Nat) (after : List Char) :
    ∀ (cs : List Char) (fuel : Nat) (found : List Char) (place : Nat), cs.length < fuel →
      ∃ place', characters start fuel found ⟨cs.flatMap asciiEscaped ++ '"' :: after, place⟩ =
        .ok (String.ofList (found.reverse ++ cs), ⟨after, place'⟩) := by
  intro cs
  -- A character takes one step however it is spelled, and the closing mark takes the last one.
  induction cs with
  | nil =>
    intro fuel found place hfuel
    obtain ⟨fuel, rfl⟩ : ∃ m, fuel = m + 1 := ⟨fuel - 1, by simp at hfuel; omega⟩
    refine ⟨place + 1, ?_⟩
    simp [characters, Cursor.advance]
  | cons c cs ih =>
    intro fuel found place hfuel
    obtain ⟨fuel, rfl⟩ : ∃ m, fuel = m + 1 := ⟨fuel - 1, by simp at hfuel; omega⟩
    obtain ⟨place', hrest⟩ := ih fuel (c :: found) (place + (asciiEscaped c).length)
      (Nat.lt_of_succ_lt_succ hfuel)
    refine ⟨place', ?_⟩
    rw [List.flatMap_cons, List.append_assoc, (spells_asciiEscaped c).read (by simp), hrest]
    simp

theorem length_le_asciiEscaped (cs : List Char) : cs.length ≤ (cs.flatMap asciiEscaped).length := by
  induction cs with
  | nil => exact Nat.le_refl _
  | cons c cs ih =>
    have hpos := List.length_pos_iff.2 (spells_asciiEscaped c).ne_nil
    simp only [List.flatMap_cons, List.length_append, List.length_cons]
    omega

theorem text_asciiEscaped (cs after : List Char) (place : Nat) :
    ∃ place', text ⟨cs.flatMap asciiEscaped ++ '"' :: after, place⟩ =
      .ok (String.ofList cs, ⟨after, place'⟩) := by
  have hlength := length_le_asciiEscaped cs
  refine characters_asciiEscaped _ after cs _ [] place ?_
  simp only [List.length_append, List.length_cons]
  omega

end JsonText

end Assay
