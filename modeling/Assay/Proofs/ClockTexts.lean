import Assay.Proofs.FormatTexts
import Assay.Proofs.WrittenDays
import Mathlib

/-!
# Clock texts

A time of day is written as hours and minutes, perhaps with seconds and a fraction
(`Clock.IsTime`), and a moment as a day of the calendar, a time of day and perhaps an offset
(`Clock.IsMoment`). How single digits are written is open in this grammar: the formats take the
digits of every script wherever their patterns leave the digit open (`clock_texts`), and so more
than the texts that are written in ASCII (`clock_text_of_other_script`). Days are written in ASCII
alone.
-/

namespace Assay

open Pattern Text

namespace Clock

/-! ## The grammar -/

/-- How a digit may be written. -/
abbrev Script := Char → Nat → Prop

/-- The digits of ASCII. -/
def ascii : Script := fun c d => d < 10 ∧ c = Nat.digitChar d

/-- The digits of every script. -/
def everyScript : Script := fun c d => decimalValue? c = some d

/-- Two digits write a number, the first one in ASCII. -/
def Pair (script : Script) (n : Nat) (cs : List Char) : Prop :=
  ∃ c, cs = [Nat.digitChar (n / 10), c] ∧ script c (n % 10)

/-- An hour of the day. From 20 on both digits are in ASCII. -/
def IsHour (script : Script) (cs : List Char) : Prop :=
  ∃ n < 24, Pair script n cs ∧ (20 ≤ n → Pair ascii n cs)

/-- A minute or a second. -/
def IsSixtieth (script : Script) (cs : List Char) : Prop := ∃ n < 60, Pair script n cs

/-- Nothing, or a point and digits. -/
def IsFraction (script : Script) (cs : List Char) : Prop :=
  cs = [] ∨ ∃ digits, cs = '.' :: digits ∧ digits ≠ [] ∧ ∀ c ∈ digits, ∃ d, script c d

/-- Nothing, or a colon and seconds. -/
def IsSeconds (script : Script) (cs : List Char) : Prop :=
  cs = [] ∨ ∃ second fraction, cs = ':' :: second ++ fraction ∧ IsSixtieth script second ∧
    IsFraction script fraction

/-- Hours and minutes, perhaps with seconds. -/
def IsTime (script : Script) (cs : List Char) : Prop :=
  ∃ hour minute seconds, cs = hour ++ ':' :: minute ++ seconds ∧ IsHour script hour ∧
    IsSixtieth script minute ∧ IsSeconds script seconds

/-- Nothing, a `Z`, or a sign with hours and minutes, which a colon may divide. -/
def IsOffset (script : Script) (cs : List Char) : Prop :=
  cs = [] ∨ cs = ['Z'] ∨ ∃ sign hour colon minute, cs = sign :: (hour ++ colon ++ minute) ∧
    (sign = '+' ∨ sign = '-') ∧ (colon = [] ∨ colon = [':']) ∧ IsHour script hour ∧
      IsSixtieth script minute

/-- A day of the calendar. -/
def IsDate (cs : List Char) : Prop := ∃ d : Date, cs = d.toText.toList

/-- A day of the calendar, a time of the day and an offset. -/
def IsMoment (script : Script) (cs : List Char) : Prop :=
  ∃ day time offset, cs = day ++ 'T' :: time ++ offset ∧ IsDate day ∧ IsTime script time ∧
    IsOffset script offset

variable {script : Script} {cs rest : List Char} {c : Char} {d n : Nat}

/-! ## Texts in ASCII -/

/-- All characters are in ASCII. -/
def InAscii (cs : List Char) : Prop := ∀ c ∈ cs, c.toNat < 128

theorem inAscii_append {ds : List Char} : InAscii (cs ++ ds) ↔ InAscii cs ∧ InAscii ds :=
  List.forall_mem_append

theorem inAscii_cons : InAscii (c :: cs) ↔ c.toNat < 128 ∧ InAscii cs :=
  List.forall_mem_cons

theorem digitChar_inAscii : ∀ d < 10, (Nat.digitChar d).toNat < 128 := by decide

/-- The digits of every script that are in ASCII are those of ASCII. -/
theorem ascii_iff : ascii c d ↔ everyScript c d ∧ c.toNat < 128 := by
  constructor
  · rintro ⟨hd, rfl⟩
    have hdigit := isAsciiDigit_digitChar d hd
    refine ⟨?_, digitChar_inAscii d hd⟩
    rw [everyScript, decimalValue?_of_isAsciiDigit hdigit, Nat.toNat_digitChar_of_lt_ten hd,
      Nat.add_sub_cancel_left]
  · rintro ⟨hscript, hc⟩
    exact ⟨(decimalValue?_spec hscript).1, decimalValue?_ascii hscript hc⟩

theorem pair_ascii (hn : n < 100) : Pair ascii n cs ↔ Pair everyScript n cs ∧ InAscii cs := by
  have htens := digitChar_inAscii (n / 10) (by omega)
  simp only [Pair, ascii_iff]
  constructor
  · rintro ⟨c, rfl, hscript, hc⟩
    exact ⟨⟨c, rfl, hscript⟩, by simp [InAscii, htens, hc]⟩
  · rintro ⟨⟨c, rfl, hscript⟩, hascii⟩
    exact ⟨c, rfl, hscript, hascii c (by simp)⟩

theorem isHour_ascii : IsHour ascii cs ↔ IsHour everyScript cs ∧ InAscii cs := by
  constructor
  · rintro ⟨n, hn, hpair, -⟩
    obtain ⟨hevery, hascii⟩ := (pair_ascii (by omega)).1 hpair
    exact ⟨⟨n, hn, hevery, fun _ => hpair⟩, hascii⟩
  · rintro ⟨⟨n, hn, hevery, -⟩, hascii⟩
    have hpair := (pair_ascii (by omega)).2 ⟨hevery, hascii⟩
    exact ⟨n, hn, hpair, fun _ => hpair⟩

theorem isSixtieth_ascii : IsSixtieth ascii cs ↔ IsSixtieth everyScript cs ∧ InAscii cs := by
  constructor
  · rintro ⟨n, hn, hpair⟩
    obtain ⟨hevery, hascii⟩ := (pair_ascii (by omega)).1 hpair
    exact ⟨⟨n, hn, hevery⟩, hascii⟩
  · rintro ⟨⟨n, hn, hevery⟩, hascii⟩
    exact ⟨n, hn, (pair_ascii (by omega)).2 ⟨hevery, hascii⟩⟩

theorem isFraction_ascii : IsFraction ascii cs ↔ IsFraction everyScript cs ∧ InAscii cs := by
  simp only [IsFraction, ascii_iff]
  constructor
  · rintro (rfl | ⟨digits, rfl, hne, hdigits⟩)
    · exact ⟨.inl rfl, nofun⟩
    · refine ⟨.inr ⟨digits, rfl, hne, fun c hc => ?_⟩, inAscii_cons.2 ⟨by decide, fun c hc => ?_⟩⟩
      · obtain ⟨d, hd, -⟩ := hdigits c hc
        exact ⟨d, hd⟩
      · obtain ⟨-, -, hascii⟩ := hdigits c hc
        exact hascii
  · rintro ⟨rfl | ⟨digits, rfl, hne, hdigits⟩, hascii⟩
    · exact .inl rfl
    · refine .inr ⟨digits, rfl, hne, fun c hc => ?_⟩
      obtain ⟨d, hd⟩ := hdigits c hc
      exact ⟨d, hd, (inAscii_cons.1 hascii).2 c hc⟩

theorem isSeconds_ascii : IsSeconds ascii cs ↔ IsSeconds everyScript cs ∧ InAscii cs := by
  simp only [IsSeconds, isSixtieth_ascii, isFraction_ascii]
  constructor
  · rintro (rfl | ⟨second, fraction, rfl, ⟨hsecond, hascii⟩, hfraction, hascii'⟩)
    · exact ⟨.inl rfl, nofun⟩
    · refine ⟨.inr ⟨second, fraction, rfl, hsecond, hfraction⟩, ?_⟩
      exact inAscii_append.2 ⟨inAscii_cons.2 ⟨by decide, hascii⟩, hascii'⟩
  · rintro ⟨rfl | ⟨second, fraction, rfl, hsecond, hfraction⟩, hascii⟩
    · exact .inl rfl
    · rw [inAscii_append, inAscii_cons] at hascii
      exact .inr ⟨second, fraction, rfl, ⟨hsecond, hascii.1.2⟩, hfraction, hascii.2⟩

theorem isTime_ascii : IsTime ascii cs ↔ IsTime everyScript cs ∧ InAscii cs := by
  simp only [IsTime, isHour_ascii, isSixtieth_ascii, isSeconds_ascii]
  constructor
  · rintro ⟨hour, minute, seconds, rfl, ⟨hhour, ha⟩, ⟨hminute, hb⟩, hseconds, hc⟩
    refine ⟨⟨hour, minute, seconds, rfl, hhour, hminute, hseconds⟩, ?_⟩
    exact inAscii_append.2 ⟨inAscii_append.2 ⟨ha, inAscii_cons.2 ⟨by decide, hb⟩⟩, hc⟩
  · rintro ⟨⟨hour, minute, seconds, rfl, hhour, hminute, hseconds⟩, hascii⟩
    rw [inAscii_append, inAscii_append, inAscii_cons] at hascii
    exact ⟨hour, minute, seconds, rfl, ⟨hhour, hascii.1.1⟩, ⟨hminute, hascii.1.2.2⟩, hseconds,
      hascii.2⟩

theorem isOffset_ascii : IsOffset ascii cs ↔ IsOffset everyScript cs ∧ InAscii cs := by
  simp only [IsOffset, isHour_ascii, isSixtieth_ascii]
  constructor
  · rintro (rfl | rfl | ⟨sign, hour, colon, minute, rfl, hsign, hcolon, ⟨hhour, ha⟩, hminute, hb⟩)
    · exact ⟨.inl rfl, nofun⟩
    · exact ⟨.inr (.inl rfl), List.forall_mem_singleton.2 (by decide)⟩
    · refine ⟨.inr (.inr ⟨sign, hour, colon, minute, rfl, hsign, hcolon, hhour, hminute⟩), ?_⟩
      rw [inAscii_cons, inAscii_append, inAscii_append]
      refine ⟨?_, ⟨ha, ?_⟩, hb⟩
      · rcases hsign with rfl | rfl <;> decide
      · rcases hcolon with rfl | rfl
        · exact nofun
        · exact List.forall_mem_singleton.2 (by decide)
  · rintro ⟨rfl | rfl | ⟨sign, hour, colon, minute, rfl, hsign, hcolon, hhour, hminute⟩, hascii⟩
    · exact .inl rfl
    · exact .inr (.inl rfl)
    · rw [inAscii_cons, inAscii_append, inAscii_append] at hascii
      exact .inr (.inr ⟨sign, hour, colon, minute, rfl, hsign, hcolon, ⟨hhour, hascii.2.1.1⟩,
        hminute, hascii.2.2⟩)

theorem IsDate.inAscii (h : IsDate cs) : InAscii cs := by
  obtain ⟨d, hd⟩ := h
  rw [hd, d.toText_toList]
  exact dayText_ascii

theorem IsDate.shape (h : IsDate cs) : IsDayShape cs := by
  obtain ⟨d, hd⟩ := h
  rw [hd, d.toText_toList]
  exact dayText_shape ..

theorem isMoment_ascii : IsMoment ascii cs ↔ IsMoment everyScript cs ∧ InAscii cs := by
  simp only [IsMoment, isTime_ascii, isOffset_ascii]
  constructor
  · rintro ⟨day, time, offset, rfl, hday, ⟨htime, ha⟩, hoffset, hb⟩
    refine ⟨⟨day, time, offset, rfl, hday, htime, hoffset⟩, ?_⟩
    exact inAscii_append.2 ⟨inAscii_append.2 ⟨hday.inAscii, inAscii_cons.2 ⟨by decide, ha⟩⟩, hb⟩
  · rintro ⟨⟨day, time, offset, rfl, hday, htime, hoffset⟩, hascii⟩
    rw [inAscii_append, inAscii_append, inAscii_cons] at hascii
    exact ⟨day, time, offset, rfl, hday, ⟨htime, hascii.1.2.2⟩, hoffset, hascii.2⟩

/-! ## The recognizers -/

/-- Digits up to a bound are the digits of the numbers up to it. -/
theorem exists_digitChar {a b : Char} (ha : '0' ≤ a) (hb : a ≤ b) (hbound : b.toNat ≤ 57) :
    ∃ k ≤ b.toNat - 48, a = Nat.digitChar k := by
  have hlow : 48 ≤ a.toNat := ha
  have hhigh : a.toNat ≤ b.toNat := hb
  refine ⟨a.toNat - 48, by omega, (digitChar_toNat (isAsciiDigit_iff.2 ⟨hlow, by omega⟩)).symm⟩

/-- A pair of the digits that write a number. -/
theorem pair_digits {k d : Nat} (hc : script c d) (hd : d < 10) :
    Pair script (10 * k + d) [Nat.digitChar k, c] := by
  refine ⟨c, ?_, ?_⟩
  · rw [show (10 * k + d) / 10 = k by omega]
  · rwa [show (10 * k + d) % 10 = d by omega]

theorem isSixtieth_iff : IsSixtieth everyScript cs ↔
    ∃ a b, cs = [a, b] ∧ ('0' ≤ a ∧ a ≤ '5') ∧ isDecimal b = true := by
  constructor
  · rintro ⟨n, hn, c, rfl, hc⟩
    have htens : ∀ k < 6, '0' ≤ Nat.digitChar k ∧ Nat.digitChar k ≤ '5' := by decide
    exact ⟨_, c, rfl, htens (n / 10) (by omega), Option.isSome_of_eq_some hc⟩
  · rintro ⟨a, b, rfl, ⟨hlow, hhigh⟩, hb⟩
    obtain ⟨k, hk, rfl⟩ := exists_digitChar hlow hhigh (by decide)
    obtain ⟨d, hd⟩ := Option.isSome_iff_exists.1 hb
    have hten := (decimalValue?_spec hd).1
    exact ⟨10 * k + d, by change k ≤ 5 at hk; omega, pair_digits hd hten⟩

theorem isHour_iff : IsHour everyScript cs ↔ ∃ a b, cs = [a, b] ∧
    ((a = '0' ∨ a = '1') ∧ isDecimal b = true ∨ a = '2' ∧ '0' ≤ b ∧ b ≤ '3') := by
  constructor
  · rintro ⟨n, hn, ⟨c, rfl, hc⟩, hlate⟩
    refine ⟨_, c, rfl, ?_⟩
    by_cases hn' : n < 20
    · have htens : ∀ k < 2, Nat.digitChar k = '0' ∨ Nat.digitChar k = '1' := by decide
      exact .inl ⟨htens (n / 10) (by omega), Option.isSome_of_eq_some hc⟩
    · obtain ⟨c', hc', -, hunits⟩ := hlate (by omega)
      obtain rfl : c = c' := by simpa using hc'
      have hthree : ∀ k < 4, '0' ≤ Nat.digitChar k ∧ Nat.digitChar k ≤ '3' := by decide
      refine .inr ⟨?_, hunits ▸ hthree (n % 10) (by omega)⟩
      rw [show n / 10 = 2 by omega]
      rfl
  · rintro ⟨a, b, rfl, ⟨ha, hb⟩ | ⟨rfl, hlow, hhigh⟩⟩
    · obtain ⟨d, hd⟩ := Option.isSome_iff_exists.1 hb
      have hten := (decimalValue?_spec hd).1
      obtain ⟨k, hk, rfl⟩ : ∃ k < 2, a = Nat.digitChar k := by
        rcases ha with rfl | rfl
        · exact ⟨0, by decide, rfl⟩
        · exact ⟨1, by decide, rfl⟩
      exact ⟨10 * k + d, by omega, pair_digits hd hten, by omega⟩
    · obtain ⟨d, hd, rfl⟩ := exists_digitChar hlow hhigh (by decide)
      change d ≤ 3 at hd
      have hpair : Pair ascii (10 * 2 + d) ['2', Nat.digitChar d] :=
        pair_digits (k := 2) ⟨by omega, rfl⟩ (by omega)
      exact ⟨10 * 2 + d, by omega, ((pair_ascii (by omega)).1 hpair).1, fun _ => hpair⟩

theorem sixtieth_iff : Recognizer.sixtieth cs = some rest ↔
    ∃ minute, cs = minute ++ rest ∧ IsSixtieth everyScript minute := by
  simp only [Recognizer.sixtieth, Recognizer.chars_cons, Recognizer.chars_nil, isSixtieth_iff,
    Bool.and_eq_true, decide_eq_true_eq]
  constructor
  · rintro ⟨a, -, rfl, ha, b, -, rfl, hb, rfl⟩
    exact ⟨_, rfl, a, b, rfl, ha, hb⟩
  · rintro ⟨-, rfl, a, b, rfl, ha, hb⟩
    exact ⟨a, _, rfl, ha, b, _, rfl, hb, rfl⟩

theorem hour_iff : Recognizer.hour cs = some rest ↔
    ∃ hour, cs = hour ++ rest ∧ IsHour everyScript hour := by
  simp only [isHour_iff]
  unfold Recognizer.hour
  split
  · rename_i more
    simp only [Recognizer.char_iff, Bool.and_eq_true, decide_eq_true_eq]
    constructor
    · rintro ⟨b, rfl, hb⟩
      exact ⟨_, rfl, '2', b, rfl, .inr ⟨rfl, hb⟩⟩
    · rintro ⟨-, hcs, a, b, rfl, ⟨ha, -⟩ | ⟨-, hb⟩⟩
      · obtain ⟨rfl, -⟩ := List.cons.inj hcs
        rcases ha with ha | ha <;> cases ha
      · obtain ⟨-, rfl⟩ := List.cons.inj hcs
        exact ⟨b, rfl, hb⟩
  · rename_i hfirst
    simp only [Recognizer.chars_cons, Recognizer.chars_nil, Bool.or_eq_true, beq_iff_eq]
    constructor
    · rintro ⟨a, -, rfl, ha, b, -, rfl, hb, rfl⟩
      exact ⟨_, rfl, a, b, rfl, .inl ⟨ha, hb⟩⟩
    · rintro ⟨-, rfl, a, b, rfl, ⟨ha, hb⟩ | ⟨rfl, -⟩⟩
      · exact ⟨a, _, rfl, ha, b, _, rfl, hb, rfl⟩
      · exact absurd rfl (hfirst _)

/-- What follows a time does not go on with it. -/
def Ends (cs : List Char) : Prop :=
  ∀ c ∈ cs.head?, c ≠ ':' ∧ c ≠ '.' ∧ isDecimal c = false

theorem fraction_some (h : Recognizer.fraction cs = some rest) :
    ∃ fraction, cs = fraction ++ rest ∧ IsFraction everyScript fraction := by
  unfold Recognizer.fraction at h
  split at h
  · rename_i more
    split at h
    · rename_i hdigit
      cases h
      refine ⟨'.' :: more.takeWhile isDecimal, ?_, .inr ⟨_, rfl, ?_, fun c hc => ?_⟩⟩
      · rw [List.cons_append, List.takeWhile_append_dropWhile]
      · cases more with
        | nil => cases hdigit
        | cons c more =>
          have hc : isDecimal c = true := by simpa using hdigit
          rw [List.takeWhile_cons_of_pos hc]
          exact List.cons_ne_nil _ _
      · exact Option.isSome_iff_exists.1 (List.all_eq_true.1 List.all_takeWhile c hc)
    · cases h
  · cases h
    exact ⟨[], rfl, .inl rfl⟩

theorem fraction_append {fraction : List Char} (h : IsFraction everyScript fraction)
    (hends : Ends rest) : Recognizer.fraction (fraction ++ rest) = some rest := by
  rcases h with rfl | ⟨digits, rfl, hne, hdigits⟩
  · unfold Recognizer.fraction
    split
    · rename_i more heq
      rw [List.nil_append] at heq
      exact absurd rfl (hends '.' (by simp [heq])).2.1
    · rfl
  · have hdecimal : ∀ c ∈ digits, isDecimal c = true := fun c hc =>
      Option.isSome_iff_exists.2 (hdigits c hc)
    have hrest : rest.dropWhile isDecimal = rest := by
      cases rest with
      | nil => rfl
      | cons c rest => exact List.dropWhile_cons_of_neg (by simp [(hends c rfl).2.2])
    obtain ⟨c, more, rfl⟩ := List.exists_cons_of_ne_nil hne
    rw [List.cons_append, Recognizer.fraction, if_pos (by simp [hdecimal c]),
      List.dropWhile_append_of_pos hdecimal, hrest]

theorem time_some (h : Recognizer.time cs = some rest) :
    ∃ time, cs = time ++ rest ∧ IsTime everyScript time := by
  rw [Recognizer.time] at h
  obtain ⟨afterHour, hhour, h⟩ := Option.bind_eq_some_iff.1 h
  obtain ⟨afterColon, hcolon, h⟩ := Option.bind_eq_some_iff.1 h
  obtain ⟨afterMinute, hminute, hrest⟩ := Option.bind_eq_some_iff.1 h
  clear h
  obtain ⟨hour, rfl, hisHour⟩ := hour_iff.1 hhour
  obtain ⟨c, rfl, hc⟩ := Recognizer.char_iff.1 hcolon
  obtain rfl : c = ':' := eq_of_beq hc
  obtain ⟨minute, rfl, hisMinute⟩ := sixtieth_iff.1 hminute
  split at hrest
  · obtain ⟨afterSecond, hsecond, hfraction⟩ := Option.bind_eq_some_iff.1 hrest
    obtain ⟨second, rfl, hisSecond⟩ := sixtieth_iff.1 hsecond
    obtain ⟨fraction, rfl, hisFraction⟩ := fraction_some hfraction
    refine ⟨hour ++ ':' :: minute ++ (':' :: second ++ fraction), by simp, ?_⟩
    exact ⟨hour, minute, _, rfl, hisHour, hisMinute, .inr ⟨second, fraction, rfl, hisSecond,
      hisFraction⟩⟩
  · cases hrest
    refine ⟨hour ++ ':' :: minute ++ [], by simp, ?_⟩
    exact ⟨hour, minute, [], rfl, hisHour, hisMinute, .inl rfl⟩

theorem time_append {time : List Char} (h : IsTime everyScript time) (hends : Ends rest) :
    Recognizer.time (time ++ rest) = some rest := by
  obtain ⟨hour, minute, seconds, rfl, hhour, hminute, hseconds⟩ := h
  have hreadHour : Recognizer.hour (hour ++ ':' :: minute ++ seconds ++ rest) =
      some (':' :: (minute ++ (seconds ++ rest))) := hour_iff.2 ⟨hour, by simp, hhour⟩
  have hreadColon : Recognizer.char (· == ':') (':' :: (minute ++ (seconds ++ rest))) =
      some (minute ++ (seconds ++ rest)) := rfl
  have hreadMinute : Recognizer.sixtieth (minute ++ (seconds ++ rest)) = some (seconds ++ rest) :=
    sixtieth_iff.2 ⟨minute, rfl, hminute⟩
  rw [Recognizer.time, hreadHour, Option.bind_eq_bind, Option.bind_some, hreadColon,
    Option.bind_some, hreadMinute, Option.bind_some]
  rcases hseconds with rfl | ⟨second, fraction, rfl, hsecond, hfraction⟩
  · rw [List.nil_append]
    split
    · exact absurd rfl (hends ':' rfl).1
    · rfl
  · have hreadSecond : Recognizer.sixtieth (second ++ (fraction ++ rest)) =
        some (fraction ++ rest) := sixtieth_iff.2 ⟨second, rfl, hsecond⟩
    rw [List.cons_append, List.cons_append, List.append_assoc]
    show (Recognizer.sixtieth (second ++ (fraction ++ rest))).bind _ = some rest
    rw [hreadSecond]
    exact fraction_append hfraction hends

theorem isTime_iff : Recognizer.isTime cs = true ↔ IsTime everyScript cs := by
  rw [Recognizer.isTime, beq_iff_eq]
  constructor
  · intro h
    obtain ⟨time, hcs, htime⟩ := time_some h
    rw [List.append_nil] at hcs
    exact hcs ▸ htime
  · intro h
    have htime : Recognizer.time (cs ++ []) = some [] := time_append h nofun
    rwa [List.append_nil] at htime

theorem isOffset_iff : Recognizer.isOffset cs = true ↔ IsOffset everyScript cs := by
  unfold Recognizer.isOffset
  split
  · exact iff_of_true rfl (.inl rfl)
  · exact iff_of_true rfl (.inr (.inl rfl))
  · rename_i c more hz
    rw [Bool.and_eq_true, Bool.or_eq_true, beq_iff_eq, beq_iff_eq]
    constructor
    · rintro ⟨hsign, h⟩
      split at h
      · rename_i afterColon hhour
        obtain ⟨hour, rfl, hisHour⟩ := hour_iff.1 hhour
        obtain ⟨minute, rfl, hisMinute⟩ := sixtieth_iff.1 (eq_of_beq h)
        exact .inr (.inr ⟨c, hour, [':'], minute, by simp, hsign, .inr rfl, hisHour, hisMinute⟩)
      · rename_i afterHour _ hhour
        obtain ⟨hour, rfl, hisHour⟩ := hour_iff.1 hhour
        obtain ⟨minute, rfl, hisMinute⟩ := sixtieth_iff.1 (eq_of_beq h)
        exact .inr (.inr ⟨c, hour, [], minute, by simp, hsign, .inl rfl, hisHour, hisMinute⟩)
      · cases h
    · rintro (h | h | ⟨sign, hour, colon, minute, h, hsign, hcolon, hhour, hminute⟩)
      · cases h
      · cases h
        exact absurd rfl (hz rfl)
      · obtain ⟨rfl, rfl⟩ := List.cons.inj h
        have hread : Recognizer.hour (hour ++ colon ++ minute) = some (colon ++ minute) :=
          hour_iff.2 ⟨hour, List.append_assoc .., hhour⟩
        have hreadMinute : Recognizer.sixtieth minute = some [] :=
          sixtieth_iff.2 ⟨minute, (List.append_nil minute).symm, hminute⟩
        refine ⟨hsign, ?_⟩
        rw [hread]
        rcases hcolon with rfl | rfl
        · -- No minute starts with a colon.
          obtain ⟨a, b, rfl, ha, -⟩ := isSixtieth_iff.1 hminute
          have hne : a ≠ ':' := by
            rintro rfl
            exact absurd ha (by decide)
          split
          · rename_i heq
            cases heq
            exact absurd rfl hne
          · rename_i heq
            cases heq
            exact beq_iff_eq.2 hreadMinute
          · rename_i heq
            cases heq
        · exact beq_iff_eq.2 hreadMinute

theorem IsOffset.ends (h : IsOffset everyScript cs) : Ends cs := by
  intro c hc
  rcases h with rfl | rfl | ⟨sign, hour, colon, minute, rfl, hsign, -⟩
  · cases hc
  · cases hc
    decide
  · cases hc
    rcases hsign with rfl | rfl <;> decide

theorem isDayTime_iff : Recognizer.isDayTime cs = true ↔ IsMoment everyScript cs := by
  unfold Recognizer.isDayTime
  constructor
  · intro h
    split at h
    · rename_i afterT hday
      obtain ⟨afterDay, hday, hT⟩ := Option.bind_eq_some_iff.1 hday
      obtain ⟨day, rfl, hshape⟩ := Recognizer.dayDigits_iff.1 hday
      obtain ⟨c, rfl, hc⟩ := Recognizer.char_iff.1 hT
      obtain rfl : c = 'T' := eq_of_beq hc
      split at h
      · rename_i zone htime
        obtain ⟨time, rfl, hisTime⟩ := time_some htime
        obtain ⟨hoffset, hreal⟩ := Bool.and_eq_true_iff.1 h
        rw [List.take_left' hshape.length] at hreal
        exact ⟨day, time, zone, by simp, (isSome_ofIso? hshape).1 hreal, hisTime,
          isOffset_iff.1 hoffset⟩
      · cases h
    · cases h
  · rintro ⟨day, time, offset, rfl, hdate, htime, hoffset⟩
    have hshape := hdate.shape
    have hreadDay : Recognizer.dayDigits (day ++ 'T' :: time ++ offset) =
        some ('T' :: (time ++ offset)) := Recognizer.dayDigits_iff.2 ⟨day, by simp, hshape⟩
    have hreadT : Recognizer.char (· == 'T') ('T' :: (time ++ offset)) =
        some (time ++ offset) := rfl
    rw [hreadDay, Option.bind_some, hreadT]
    dsimp only
    rw [time_append htime hoffset.ends]
    dsimp only
    rw [isOffset_iff.2 hoffset, List.append_assoc, List.take_left' hshape.length,
      (isSome_ofIso? hshape).2 hdate]
    rfl

/-! ## The patterns -/

/-- A digit of any script. -/
def digitPattern : Pattern := set false false [.named false .digit]

/-- The first digit of a minute or second. -/
def tensPattern : Pattern := set false false [.range '0' '5']

/-- An hour. -/
def hourPattern : Pattern :=
  alt (seq (set false false [.single '0', .single '1']) digitPattern)
    (seq (char false '2') (set false false [.range '0' '3']))

/-- A fraction, which may be left out. -/
def fractionPattern : Pattern := rep (seq (char false '.') (rep digitPattern 1 none)) 0 (some 1)

/-- Seconds, which may be left out. -/
def secondsPattern : Pattern :=
  rep (seq (char false ':') (seq tensPattern (seq digitPattern fractionPattern))) 0 (some 1)

/-- A time of the day, followed by a pattern. -/
def timeThen (p : Pattern) : Pattern :=
  seq hourPattern (seq (char false ':') (seq tensPattern (seq digitPattern p)))

/-- An offset, which may be left out. -/
def offsetPattern : Pattern :=
  rep (alt (char false 'Z') (seq (set false false [.single '+', .single '-'])
    (seq hourPattern (seq (rep (char false ':') 0 (some 1)) (seq tensPattern digitPattern)))))
      0 (some 1)

/-- Digits and hyphens as in a day, followed by a pattern. -/
def dayThen (p : Pattern) : Pattern :=
  seq (rep digitPattern 4 (some 4)) (seq (char false '-') (seq (rep digitPattern 2 (some 2))
    (seq (char false '-') (seq (rep digitPattern 2 (some 2)) p))))

/-- What the pattern of moments writes. -/
def momentPattern : Pattern :=
  dayThen (seq (char false 'T') (timeThen (seq secondsPattern offsetPattern)))

theorem language_digit : digitPattern.language = letter isDecimal := by
  have htest : setHolds false false [.named false .digit] = isDecimal := by
    funext c
    simp [setHolds, SetItem.holds, CharClass.holds]
  rw [digitPattern, language, htest]

theorem language_tens : tensPattern.language = letter fun c => '0' ≤ c && c ≤ '5' := by
  have htest : setHolds false false [.range '0' '5'] = fun c => '0' ≤ c && c ≤ '5' := by
    funext c
    simp [setHolds, SetItem.holds]
  rw [tensPattern, language, htest]

theorem mem_hour : cs ∈ hourPattern.language ↔ IsHour everyScript cs := by
  have hearly (c : Char) : setHolds false false [.single '0', .single '1'] c = true ↔
      c = '0' ∨ c = '1' := by
    simp [setHolds, SetItem.holds]
  have hlate {cs : List Char} : cs ∈ (set false false [.range '0' '3']).language ↔
      ∃ b, cs = [b] ∧ '0' ≤ b ∧ b ≤ '3' := by
    refine exists_congr fun b => and_congr_right fun _ => ?_
    simp [setHolds, SetItem.holds]
  rw [hourPattern, mem_alt, mem_letter_seq (p := set ..) rfl, mem_char_seq, language_digit,
    isHour_iff]
  simp only [hearly, hlate]
  constructor
  · rintro (⟨a, -, rfl, ha, b, rfl, hb⟩ | ⟨-, rfl, b, rfl, hb⟩)
    · exact ⟨a, b, rfl, .inl ⟨ha, hb⟩⟩
    · exact ⟨'2', b, rfl, .inr ⟨rfl, hb⟩⟩
  · rintro ⟨a, b, rfl, ⟨ha, hb⟩ | ⟨rfl, hb⟩⟩
    · exact .inl ⟨a, [b], rfl, ha, b, rfl, hb⟩
    · exact .inr ⟨[b], rfl, b, rfl, hb⟩

theorem mem_sixtieth : cs ∈ (seq tensPattern digitPattern).language ↔
    IsSixtieth everyScript cs := by
  rw [mem_letter_seq language_tens, language_digit, isSixtieth_iff]
  simp only [Bool.and_eq_true, decide_eq_true_eq]
  constructor
  · rintro ⟨a, -, rfl, ha, b, rfl, hb⟩
    exact ⟨a, b, rfl, ha, hb⟩
  · rintro ⟨a, b, rfl, ha, hb⟩
    exact ⟨a, [b], rfl, ha, b, rfl, hb⟩

/-- A minute or second is read before what follows it. -/
theorem mem_sixtieth_seq {p : Pattern} :
    cs ∈ (seq tensPattern (seq digitPattern p)).language ↔
      ∃ minute rest, cs = minute ++ rest ∧ IsSixtieth everyScript minute ∧ rest ∈ p.language := by
  have hassoc : (seq tensPattern (seq digitPattern p)).language =
      (seq (seq tensPattern digitPattern) p).language := by
    simp only [language_seq, mul_assoc]
  rw [hassoc, mem_seq]
  simp only [mem_sixtieth]

theorem mem_fraction : cs ∈ fractionPattern.language ↔ IsFraction everyScript cs := by
  rw [fractionPattern, mem_optional, mem_char_seq]
  simp only [mem_language_run language_digit]
  refine or_congr_right (exists_congr fun digits => and_congr_right fun _ => ?_)
  constructor
  · rintro ⟨hpos, -, hdigits⟩
    exact ⟨List.ne_nil_of_length_pos hpos, fun c hc => Option.isSome_iff_exists.1 (hdigits c hc)⟩
  · rintro ⟨hne, hdigits⟩
    exact ⟨List.length_pos_of_ne_nil hne, nofun,
      fun c hc => Option.isSome_iff_exists.2 (hdigits c hc)⟩

theorem mem_seconds : cs ∈ secondsPattern.language ↔ IsSeconds everyScript cs := by
  rw [secondsPattern, mem_optional, mem_char_seq]
  simp only [mem_sixtieth_seq, mem_fraction]
  refine or_congr_right ⟨?_, ?_⟩
  · rintro ⟨-, rfl, second, fraction, rfl, h⟩
    exact ⟨second, fraction, rfl, h⟩
  · rintro ⟨second, fraction, rfl, h⟩
    exact ⟨_, rfl, second, fraction, rfl, h⟩

theorem mem_timeThen {p : Pattern} : cs ∈ (timeThen p).language ↔
    ∃ hour minute rest, cs = hour ++ ':' :: minute ++ rest ∧ IsHour everyScript hour ∧
      IsSixtieth everyScript minute ∧ rest ∈ p.language := by
  rw [timeThen, mem_seq]
  simp only [mem_hour, mem_char_seq, mem_sixtieth_seq]
  constructor
  · rintro ⟨hour, -, rfl, hhour, -, rfl, minute, rest, rfl, hminute, hrest⟩
    exact ⟨hour, minute, rest, by simp, hhour, hminute, hrest⟩
  · rintro ⟨hour, minute, rest, rfl, hhour, hminute, hrest⟩
    exact ⟨hour, _, by simp, hhour, _, rfl, minute, rest, rfl, hminute, hrest⟩

theorem mem_time : cs ∈ (timeThen secondsPattern).language ↔ IsTime everyScript cs := by
  simp only [mem_timeThen, mem_seconds, IsTime]

theorem mem_offset : cs ∈ offsetPattern.language ↔ IsOffset everyScript cs := by
  have hsign (c : Char) : setHolds false false [.single '+', .single '-'] c = true ↔
      c = '+' ∨ c = '-' := by
    simp [setHolds, SetItem.holds]
  rw [offsetPattern, mem_optional, mem_alt, mem_char, mem_letter_seq (p := set ..) rfl]
  simp only [hsign, mem_seq (p := hourPattern), mem_seq (p := rep ..), mem_hour, mem_optional,
    mem_char, mem_sixtieth]
  refine or_congr_right (or_congr_right ⟨?_, ?_⟩)
  · rintro ⟨sign, -, rfl, hsign, hour, -, rfl, hhour, colon, minute, rfl, hcolon, hminute⟩
    exact ⟨sign, hour, colon, minute, by simp, hsign, hcolon, hhour, hminute⟩
  · rintro ⟨sign, hour, colon, minute, rfl, hsign, hcolon, hhour, hminute⟩
    exact ⟨sign, _, rfl, hsign, hour, _, List.append_assoc .., hhour, colon, minute, rfl, hcolon,
      hminute⟩

theorem mem_dayThen {p : Pattern} : cs ∈ (dayThen p).language ↔
    ∃ day rest, cs = day ++ rest ∧ IsDayShape day ∧ rest ∈ p.language := by
  have hdigits {n : Nat} {cs : List Char} : cs ∈ (rep digitPattern n (some n)).language ↔
      cs.length = n ∧ ∀ c ∈ cs, isDecimal c = true := by
    rw [language_exactly, language_digit, mem_letter_pow]
  simp only [dayThen, mem_seq (p := rep ..), mem_char_seq, hdigits]
  constructor
  · rintro ⟨year, -, rfl, ⟨hyear, hy⟩, -, rfl, month, -, rfl, ⟨hmonth, hm⟩, -, rfl, day, rest, rfl,
      ⟨hday, hd⟩, hrest⟩
    refine ⟨year ++ '-' :: month ++ '-' :: day, rest, by simp, ⟨year, month, day, rfl, hyear,
      hmonth, hday, ?_⟩, hrest⟩
    exact List.forall_mem_append.2 ⟨List.forall_mem_append.2 ⟨hy, hm⟩, hd⟩
  · rintro ⟨-, rest, rfl, ⟨year, month, day, rfl, hyear, hmonth, hday, h⟩, hrest⟩
    rw [List.forall_mem_append, List.forall_mem_append] at h
    exact ⟨year, _, by simp, ⟨hyear, h.1.1⟩, _, rfl, month, _, rfl, ⟨hmonth, h.1.2⟩, _, rfl, day,
      rest, rfl, ⟨hday, h.2⟩, hrest⟩

theorem mem_moment : cs ∈ momentPattern.language ↔
    ∃ day time offset, cs = day ++ 'T' :: time ++ offset ∧ IsDayShape day ∧
      IsTime everyScript time ∧ IsOffset everyScript offset := by
  have hassoc : (timeThen (seq secondsPattern offsetPattern)).language =
      (seq (timeThen secondsPattern) offsetPattern).language := by
    simp only [timeThen, language_seq, mul_assoc]
  rw [momentPattern, mem_dayThen]
  simp only [mem_char_seq, hassoc, mem_seq (p := timeThen _), mem_time, mem_offset]
  constructor
  · rintro ⟨day, -, rfl, hday, -, rfl, time, offset, rfl, htime, hoffset⟩
    exact ⟨day, time, offset, by simp, hday, htime, hoffset⟩
  · rintro ⟨day, time, offset, rfl, hday, htime, hoffset⟩
    exact ⟨day, _, by simp, hday, _, rfl, time, offset, rfl, htime, hoffset⟩

/-- The pattern and the calendar together leave the moments. -/
theorem moment_iff : (cs ∈ momentPattern.language ∧
    (Date.ofIso? (String.ofList (cs.take 10))).isSome = true) ↔ IsMoment everyScript cs := by
  rw [mem_moment]
  constructor
  · rintro ⟨⟨day, time, offset, rfl, hshape, htime, hoffset⟩, hreal⟩
    rw [List.append_assoc, List.take_left' hshape.length] at hreal
    exact ⟨day, time, offset, rfl, (isSome_ofIso? hshape).1 hreal, htime, hoffset⟩
  · rintro ⟨day, time, offset, rfl, hdate, htime, hoffset⟩
    refine ⟨⟨day, time, offset, rfl, hdate.shape, htime, hoffset⟩, ?_⟩
    rw [List.append_assoc, List.take_left' hdate.shape.length]
    exact (isSome_ofIso? hdate.shape).2 hdate

end Clock

/-! ## The formats -/

variable {host : Host} {ctx : Context} {σ τ : Session} {date time moment : Schema Value}
  {coerce abort error : Value}

/-- The format of days accepts the days of the calendar. -/
theorem date_texts
    (hdate : (Construct.format .isoDate coerce abort { error := error }).answer τ = .ok date)
    (hown : σ.kinds.evaluator? (.str "string") = .ok (.builtin .evaluateNode)) :
    date.AcceptsTexts host ctx σ Clock.IsDate :=
  format_accepts hdate hown fun _ => Recognizer.isDay_iff

open Clock in
/-- The formats of times and moments accept the texts of the grammar with digits of every script,
and the patterns that they show, for moments together with the calendar, match the same texts. The
texts of the grammar in ASCII are those among them that are in ASCII. -/
theorem clock_texts
    (htime : (Construct.format .isoTime coerce abort { error := error }).answer τ = .ok time)
    (hmoment : (Construct.format .isoDateTime coerce abort { error := error }).answer τ =
      .ok moment)
    (hown : σ.kinds.evaluator? (.str "string") = .ok (.builtin .evaluateNode)) :
    time.AcceptsTexts host ctx σ (IsTime everyScript) ∧
    moment.AcceptsTexts host ctx σ (IsMoment everyScript) ∧
    StringFormat.isoTime.Shows (IsTime everyScript) ∧
    (∃ text p, StringFormat.isoDateTime.pattern? = some text ∧ Pattern.ofText text = .ok p ∧
      ∀ t, (p.matchesWhole t = true ∧
        (Date.ofIso? (String.ofList (t.toList.take 10))).isSome = true) ↔
          IsMoment everyScript t.toList) ∧
    ∀ cs, (IsTime ascii cs ↔ IsTime everyScript cs ∧ InAscii cs) ∧
      (IsMoment ascii cs ↔ IsMoment everyScript cs ∧ InAscii cs) := by
  refine ⟨format_accepts htime hown fun t => isTime_iff,
    format_accepts hmoment hown fun t => isDayTime_iff, ⟨_, timeThen secondsPattern, rfl, by cbv,
      fun t => ?_⟩, ⟨_, momentPattern, rfl, by cbv, fun t => ?_⟩,
    fun cs => ⟨isTime_ascii, isMoment_ascii⟩⟩
  · rw [matchesWhole_language rfl rfl, mem_time]
  · rw [matchesWhole_language rfl rfl]
    exact moment_iff

open Clock Stock in
/-- Times and moments in ASCII are accepted. -/
theorem clock_texts_morning :
    (safeParse (hostThat false) {} StringFormat.isoTime.node (.str "09:30")).answer {} =
        .ok (.accepted (.str "09:30")) ∧
      (safeParse (hostThat false) {} StringFormat.isoDateTime.node
          (.str "2024-02-29T09:30:00.5+0200")).answer {} =
        .ok (.accepted (.str "2024-02-29T09:30:00.5+0200")) := by
  obtain ⟨htime, hmoment, -⟩ :
      StringFormat.isoTime.node.AcceptsTexts (hostThat false) {} {} (IsTime everyScript) ∧
        StringFormat.isoDateTime.node.AcceptsTexts (hostThat false) {} {} (IsMoment everyScript) ∧
          _ :=
    clock_texts (StringFormat.node_made .isoTime) (StringFormat.node_made .isoDateTime) rfl
  exact ⟨(htime _ _).2 ⟨rfl, isTime_iff.1 (by decide)⟩,
    (hmoment _ _).2 ⟨rfl, isDayTime_iff.1 (by decide +kernel)⟩⟩

open Clock Stock in
/-- A time and a moment with a digit of another script are accepted as well. -/
theorem clock_text_of_other_script :
    (safeParse (hostThat false) {} StringFormat.isoTime.node (.str "0\u0663:00")).answer {} =
        .ok (.accepted (.str "0\u0663:00")) ∧
      ¬ IsTime ascii "0\u0663:00".toList ∧
      (safeParse (hostThat false) {} StringFormat.isoDateTime.node
          (.str "2024-01-02T0\u0663:00")).answer {} =
        .ok (.accepted (.str "2024-01-02T0\u0663:00")) ∧
      ¬ IsMoment ascii "2024-01-02T0\u0663:00".toList := by
  have hforeign {cs : List Char} (hmem : '\u0663' ∈ cs) : ¬ InAscii cs := fun h =>
    absurd (h _ hmem) (by decide)
  have htime : StringFormat.isoTime.node.AcceptsTexts (hostThat false) {} {} (IsTime everyScript) :=
    format_accepts (StringFormat.node_made .isoTime) rfl fun t => isTime_iff
  have hmoment : StringFormat.isoDateTime.node.AcceptsTexts (hostThat false) {} {}
      (IsMoment everyScript) :=
    format_accepts (StringFormat.node_made .isoDateTime) rfl fun t => isDayTime_iff
  refine ⟨(htime _ _).2 ⟨rfl, isTime_iff.1 (by decide +kernel)⟩, ?_,
    (hmoment _ _).2 ⟨rfl, isDayTime_iff.1 (by decide +kernel)⟩, ?_⟩
  · exact fun h => hforeign (by decide) (isTime_ascii.1 h).2
  · exact fun h => hforeign (by decide) (isMoment_ascii.1 h).2

end Assay
