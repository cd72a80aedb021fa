import Assay.Format.Recognizer
import Assay.Proofs.Numerals
import Mathlib.Algebra.Ring.Nat
import Mathlib.Data.List.Induction

/-!
# Written days

A number is padded to its last decimal digits (`padded_toList`), and a day is written as its year,
month and day with hyphens between them. The reader of ISO texts takes ten digits and hyphens for a
day exactly if they are written so, all in ASCII (`isSome_ofIso?`).
-/

namespace Assay

open Text

variable {cs : List Char} {c : Char} {n w : Nat}

/-! ## Bytes -/

theorem toList_toByteArray (l : List UInt8) : l.toByteArray.toList = l := by
  have hloop (bs : ByteArray) (i : Nat) (r : List UInt8) :
      ByteArray.toList.loop bs i r = r.reverse ++ bs.data.toList.drop i := by
    fun_induction ByteArray.toList.loop bs i r with
    | case1 i r h ih =>
      have hi : i < bs.data.toList.length := by simpa using h
      rw [ih, List.drop_eq_getElem_cons (l := bs.data.toList) hi]
      simp [ByteArray.get!, h]
    | case2 i r h =>
      rw [List.drop_eq_nil_of_le (by simpa using Nat.le_of_not_lt h)]
      simp
  rw [ByteArray.toList, hloop, List.toList_data_toByteArray]
  rfl

theorem bytes_ofList (cs : List Char) :
    (String.ofList cs).toUTF8.toList = cs.flatMap String.utf8EncodeChar := by
  rw [String.toUTF8, String.toByteArray_ofList, List.utf8Encode, toList_toByteArray]

/-- The byte of an ASCII character. -/
def asciiByte (c : Char) : UInt8 := c.val.toUInt8

theorem toNat_asciiByte (hc : c.toNat < 128) : (asciiByte c).toNat = c.toNat := by
  show c.val.toNat % 256 = c.val.toNat
  exact Nat.mod_eq_of_lt (Nat.lt_trans hc (by decide))

theorem utf8Size_eq_one (hc : c.toNat < 128) : c.utf8Size = 1 :=
  Char.utf8Size_eq_one_iff.2 (UInt32.le_iff_toNat_le.2 (Nat.le_of_lt_succ hc))

theorem bytes_ascii (h : ∀ c ∈ cs, c.toNat < 128) :
    (String.ofList cs).toUTF8.toList = cs.map asciiByte := by
  rw [bytes_ofList]
  induction cs with
  | nil => rfl
  | cons c cs ih =>
    obtain ⟨hc, hcs⟩ := List.forall_mem_cons.1 h
    rw [List.flatMap_cons, ih hcs, String.utf8EncodeChar_eq_singleton (utf8Size_eq_one hc)]
    rfl

theorem length_le_bytes (cs : List Char) :
    cs.length ≤ (cs.flatMap String.utf8EncodeChar).length := by
  induction cs with
  | nil => exact Nat.le_refl _
  | cons c cs ih =>
    have := c.utf8Size_pos
    rw [List.flatMap_cons, List.length_append, String.length_utf8EncodeChar, List.length_cons]
    omega

/-- A text with no more bytes than characters is in ASCII. -/
theorem ascii_of_length (h : (cs.flatMap String.utf8EncodeChar).length = cs.length) :
    ∀ c ∈ cs, c.toNat < 128 := by
  induction cs with
  | nil => exact nofun
  | cons c cs ih =>
    have hc := c.utf8Size_pos
    have hcs := length_le_bytes cs
    rw [List.flatMap_cons, List.length_append, String.length_utf8EncodeChar, List.length_cons] at h
    refine List.forall_mem_cons.2 ⟨?_, ih (by omega)⟩
    have hone := Char.utf8Size_eq_one_iff.1 (show c.utf8Size = 1 by omega)
    exact Nat.lt_succ_of_le (UInt32.le_iff_toNat_le.1 hone)

/-! ## Decimal digits -/

/-- The last `w` decimal digits of a number. -/
def decimals : Nat → Nat → List Char
  | 0, _ => []
  | w + 1, n => decimals w (n / 10) ++ [Nat.digitChar (n % 10)]

theorem length_decimals (w n : Nat) : (decimals w n).length = w := by
  induction w generalizing n with
  | zero => rfl
  | succ w ih => rw [decimals, List.length_append, ih, List.length_singleton]

theorem isAsciiDigit_digitChar : ∀ d < 10, isAsciiDigit (Nat.digitChar d) = true := by decide

theorem isAsciiDigit_decimals : ∀ c ∈ decimals w n, isAsciiDigit c = true := by
  induction w generalizing n with
  | zero => exact nofun
  | succ w ih =>
    exact List.forall_mem_append.2 ⟨ih, List.forall_mem_singleton.2
      (isAsciiDigit_digitChar _ (Nat.mod_lt n (by decide)))⟩

/-- Padding a number writes its last digits. -/
theorem padded_toList (hn : n < 10 ^ (w + 1)) : (padded (w + 1) n).toList = decimals (w + 1) n := by
  rw [padded, String.toList_ofList]
  induction w generalizing n with
  | zero =>
    have hsmall : n < 10 := hn
    rw [Nat.toDigits_of_lt_base hsmall, decimals, Nat.mod_eq_of_lt hsmall]
    rfl
  | succ w ih =>
    rw [padded_toDigits (by decide), ih (Nat.div_lt_of_lt_mul (Nat.pow_succ' ▸ hn))]
    rfl

theorem digitChar_toNat (hc : isAsciiDigit c = true) : Nat.digitChar (c.toNat - 48) = c := by
  obtain ⟨hlow, hhigh⟩ := isAsciiDigit_iff.1 hc
  rw [← Char.toNat_inj, Nat.toNat_digitChar_of_lt_ten (by omega)]
  omega

/-- Digits are the last digits of the number that they write. -/
theorem exists_decimals {ds : List Char} (h : ∀ c ∈ ds, isAsciiDigit c = true) :
    ∃ n < 10 ^ ds.length, ds = decimals ds.length n := by
  induction ds using List.reverseRecOn with
  | nil => exact ⟨0, by decide, rfl⟩
  | append_singleton ds c ih =>
    obtain ⟨hds, hc⟩ := List.forall_mem_append.1 h
    replace hc := List.forall_mem_singleton.1 hc
    obtain ⟨n, hn, hds⟩ := ih hds
    obtain ⟨hlow, hhigh⟩ := isAsciiDigit_iff.1 hc
    refine ⟨10 * n + (c.toNat - 48), ?_, ?_⟩
    · rw [List.length_append, List.length_singleton, Nat.pow_succ]
      omega
    · rw [List.length_append, List.length_singleton, decimals,
        show (10 * n + (c.toNat - 48)) / 10 = n by omega,
        show (10 * n + (c.toNat - 48)) % 10 = c.toNat - 48 by omega, digitChar_toNat hc, ← hds]

/-! ## Reading numbers -/

theorem number?_succ (bs : List UInt8) (i w : Nat) : Iso.number? bs i (w + 1) =
    (Iso.number? bs i w).bind fun n => if Iso.isDigitByte (Iso.byteAt bs (i + w)) then
      some (n * 10 + (Iso.byteAt bs (i + w) - 48)) else none := by
  rw [Iso.number?, List.range_succ, List.foldlM_append]
  simp only [List.foldlM_cons, List.foldlM_nil, bind_pure]
  rfl

theorem byteAt_append (before after : List UInt8) (b : UInt8) :
    Iso.byteAt (before ++ b :: after) before.length = b.toNat := by
  simp [Iso.byteAt]

/-- The bytes of the last digits of a number. -/
def digitBytes (w n : Nat) : List UInt8 := (decimals w n).map asciiByte

theorem toNat_digitByte (n : Nat) : (asciiByte (Nat.digitChar (n % 10))).toNat = 48 + n % 10 := by
  have hd : n % 10 < 10 := Nat.mod_lt n (by decide)
  have hc := Nat.toNat_digitChar_of_lt_ten hd
  rw [toNat_asciiByte (by omega), hc]

/-- The digits of a number are read where they stand. -/
theorem number?_digitBytes (before after : List UInt8) (w n : Nat) :
    Iso.number? (before ++ (digitBytes w n ++ after)) before.length w = some (n % 10 ^ w) := by
  induction w generalizing n after with
  | zero =>
    rw [Nat.pow_zero, Nat.mod_one]
    rfl
  | succ w ih =>
    have hsplit : digitBytes (w + 1) n ++ after =
        digitBytes w (n / 10) ++ asciiByte (Nat.digitChar (n % 10)) :: after := by
      rw [digitBytes, decimals, List.map_append, List.append_assoc]
      rfl
    have hbyte : Iso.byteAt (before ++ (digitBytes w (n / 10) ++
        asciiByte (Nat.digitChar (n % 10)) :: after)) (before.length + w) = 48 + n % 10 := by
      have h := byteAt_append (before ++ digitBytes w (n / 10)) after
        (asciiByte (Nat.digitChar (n % 10)))
      rwa [List.length_append, digitBytes, List.length_map, length_decimals, List.append_assoc,
        toNat_digitByte] at h
    have hdigit : Iso.isDigitByte (48 + n % 10) = true := by
      simp only [Iso.isDigitByte, Bool.and_eq_true, decide_eq_true_eq]
      omega
    rw [hsplit, number?_succ, hbyte, ih, Option.bind_some, if_pos hdigit, Nat.pow_succ',
      Nat.mod_mul]
    exact congrArg some (by omega)

/-! ## Days -/

/-- The text of a day by its numbers. -/
def dayText (year month day : Nat) : List Char :=
  decimals 4 year ++ '-' :: decimals 2 month ++ '-' :: decimals 2 day

theorem IsDay.lt {year month day : Nat} (h : IsDay year month day) :
    year < 10 ^ 4 ∧ month < 10 ^ 2 ∧ day < 10 ^ 2 := by
  obtain ⟨⟨-, hyear⟩, ⟨-, hmonth⟩, -, hday⟩ := h
  have hlong : daysInMonth year month ≤ 31 := by
    unfold daysInMonth
    split <;> (try split) <;> omega
  omega

theorem Date.toText_toList (d : Date) : d.toText.toList = dayText d.year d.month d.day := by
  obtain ⟨hyear, hmonth, hday⟩ := d.isDay.lt
  rw [Date.toText, String.toList_append, String.toList_append, String.toList_append,
    String.toList_append, padded_toList hyear, padded_toList hmonth, padded_toList hday, dayText]
  simp

/-- The bytes of a day are read as its numbers. -/
theorem day?_bytes {year month day : Nat} (hyear : year < 10 ^ 4) (hmonth : month < 10 ^ 2)
    (hday : day < 10 ^ 2) :
    Iso.day? (digitBytes 4 year ++ 45 :: (digitBytes 2 month ++ 45 :: digitBytes 2 day)) 10 =
      Date.ofNumbers? year month day := by
  generalize hbs : digitBytes 4 year ++ 45 :: (digitBytes 2 month ++ 45 :: digitBytes 2 day) = bs
  have hreadYear : Iso.number? bs 0 4 = some year := by
    have h := number?_digitBytes [] (45 :: (digitBytes 2 month ++ 45 :: digitBytes 2 day)) 4 year
    rwa [Nat.mod_eq_of_lt hyear, List.nil_append, hbs] at h
  have hreadMonth : Iso.number? bs 5 2 = some month := by
    have h := number?_digitBytes (digitBytes 4 year ++ [45]) (45 :: digitBytes 2 day) 2 month
    rwa [Nat.mod_eq_of_lt hmonth, List.append_assoc, List.singleton_append, hbs] at h
  have hreadDay : Iso.number? bs 8 2 = some day := by
    have h := number?_digitBytes (digitBytes 4 year ++ 45 :: (digitBytes 2 month ++ [45])) [] 2 day
    rwa [Nat.mod_eq_of_lt hday, List.append_nil, List.append_assoc, List.cons_append,
      List.append_assoc, List.singleton_append, hbs] at h
  have hhyphen : Iso.byteAt bs 4 = 45 := by
    rw [← hbs]
    rfl
  have hhyphen' : Iso.byteAt bs 7 = 45 := by
    rw [← hbs]
    rfl
  -- A digit stands where a week date has its letter.
  have hnoWeek : Iso.byteAt bs 5 ≠ 87 := by
    have h : Iso.byteAt bs 5 = (asciiByte (Nat.digitChar (month / 10 % 10))).toNat := by
      rw [← hbs]
      rfl
    rw [h, toNat_digitByte]
    omega
  simp [Iso.day?, hreadYear, hreadMonth, hreadDay, hhyphen, hhyphen', hnoWeek]

theorem dayText_ascii {year month day : Nat} : ∀ c ∈ dayText year month day, c.toNat < 128 := by
  have hdigits {w n : Nat} : ∀ c ∈ decimals w n, c.toNat < 128 := fun c hc =>
    Nat.lt_of_le_of_lt (isAsciiDigit_iff.1 (isAsciiDigit_decimals c hc)).2 (by decide)
  simp only [dayText, List.forall_mem_append, List.forall_mem_cons]
  exact ⟨⟨hdigits, by decide, hdigits⟩, by decide, hdigits⟩

/-- The reader takes the numbers of a day. -/
theorem ofIso?_dayText {year month day : Nat} (hyear : year < 10 ^ 4) (hmonth : month < 10 ^ 2)
    (hday : day < 10 ^ 2) : Date.ofIso? (String.ofList (dayText year month day)) =
      Date.ofNumbers? year month day := by
  have hbytes : (String.ofList (dayText year month day)).toUTF8.toList =
      digitBytes 4 year ++ 45 :: (digitBytes 2 month ++ 45 :: digitBytes 2 day) := by
    rw [bytes_ascii dayText_ascii, dayText]
    simp [digitBytes]
    rfl
  rw [Date.ofIso?, hbytes, ← day?_bytes hyear hmonth hday]
  rfl

/-- Four, two and two digits of any script with hyphens between. -/
def IsDayShape (cs : List Char) : Prop :=
  ∃ year month day, cs = year ++ '-' :: month ++ '-' :: day ∧ year.length = 4 ∧ month.length = 2 ∧
    day.length = 2 ∧ ∀ c ∈ year ++ month ++ day, isDecimal c = true

theorem isDecimal_of_isAsciiDigit (h : isAsciiDigit c = true) : isDecimal c = true := by
  rw [isDecimal, decimalValue?_of_isAsciiDigit h]
  rfl

/-- A decimal digit is counted from the zero of its script. -/
theorem decimalValue?_spec {d : Nat} (h : decimalValue? c = some d) :
    d < 10 ∧ ∃ start ∈ decimalZeros.toList, c.toNat = start + d := by
  rw [decimalValue?, ← Array.find?_toList] at h
  obtain ⟨start, hstart, rfl⟩ := Option.map_eq_some_iff.1 h
  have htest := List.find?_some hstart
  simp only [Bool.and_eq_true, decide_eq_true_eq] at htest
  exact ⟨by omega, start, List.mem_of_find?_eq_some hstart, by omega⟩

/-- The only decimal digits in ASCII are the usual ones. -/
theorem decimalValue?_ascii {d : Nat} (h : decimalValue? c = some d) (hc : c.toNat < 128) :
    c = Nat.digitChar d := by
  obtain ⟨hd, start, hmem, heq⟩ := decimalValue?_spec h
  have hstart : ∀ z ∈ decimalZeros.toList, z < 128 → z = 48 := by decide
  rw [← Char.toNat_inj, Nat.toNat_digitChar_of_lt_ten hd, heq, hstart start hmem (by omega)]

theorem dayText_shape (year month day : Nat) : IsDayShape (dayText year month day) := by
  refine ⟨_, _, _, rfl, length_decimals .., length_decimals .., length_decimals .., ?_⟩
  simp only [List.forall_mem_append]
  exact ⟨⟨fun c hc => isDecimal_of_isAsciiDigit (isAsciiDigit_decimals c hc),
    fun c hc => isDecimal_of_isAsciiDigit (isAsciiDigit_decimals c hc)⟩,
    fun c hc => isDecimal_of_isAsciiDigit (isAsciiDigit_decimals c hc)⟩

theorem IsDayShape.length (h : IsDayShape cs) : cs.length = 10 := by
  obtain ⟨year, month, day, rfl, hyear, hmonth, hday, -⟩ := h
  simp [hyear, hmonth, hday]

/-- The reader takes no text of ten characters that has more bytes than that. -/
theorem ascii_of_ofIso? (hlength : cs.length = 10)
    (h : (Date.ofIso? (String.ofList cs)).isSome = true) : ∀ c ∈ cs, c.toNat < 128 := by
  have hle := length_le_bytes cs
  rw [Date.ofIso?, bytes_ofList] at h
  split at h
  · rename_i hshort
    simp only [Bool.or_eq_true, beq_iff_eq] at hshort
    exact ascii_of_length (by omega)
  · cases h

/-- In ASCII a text of this shape is written for three numbers. -/
theorem IsDayShape.exists_dayText (h : IsDayShape cs) (hascii : ∀ c ∈ cs, c.toNat < 128) :
    ∃ year < 10 ^ 4, ∃ month < 10 ^ 2, ∃ day < 10 ^ 2, cs = dayText year month day := by
  obtain ⟨year, month, day, rfl, hyear, hmonth, hday, hdigits⟩ := h
  have hdecimals {w : Nat} {ds : List Char} (hw : ds.length = w)
      (hmem : ∀ c ∈ ds, c ∈ year ++ month ++ day) : ∃ n < 10 ^ w, ds = decimals w n := by
    subst hw
    refine exists_decimals fun c hc => ?_
    have hcs : c ∈ year ++ '-' :: month ++ '-' :: day := by
      have := hmem c hc
      simp only [List.mem_append, List.mem_cons] at this ⊢
      grind
    obtain ⟨d, hd⟩ := Option.isSome_iff_exists.1 (hdigits c (hmem c hc))
    rw [decimalValue?_ascii hd (hascii c hcs)]
    exact isAsciiDigit_digitChar d (decimalValue?_spec hd).1
  obtain ⟨y, hy, rfl⟩ := hdecimals hyear (by simp +contextual)
  obtain ⟨m, hm, rfl⟩ := hdecimals hmonth (by simp +contextual)
  obtain ⟨d, hd, rfl⟩ := hdecimals hday (by simp +contextual)
  exact ⟨y, hy, m, hm, d, hd, rfl⟩

/-- Of the texts of this shape the reader takes the days that are written in ASCII. -/
theorem isSome_ofIso? (h : IsDayShape cs) :
    (Date.ofIso? (String.ofList cs)).isSome = true ↔ ∃ d : Date, cs = d.toText.toList := by
  constructor
  · intro hsome
    obtain ⟨year, hyear, month, hmonth, day, hday, rfl⟩ :=
      h.exists_dayText (ascii_of_ofIso? h.length hsome)
    rw [ofIso?_dayText hyear hmonth hday, Date.ofNumbers?] at hsome
    split at hsome
    · rename_i hreal
      exact ⟨⟨year, month, day, hreal⟩, (Date.toText_toList ⟨year, month, day, hreal⟩).symm⟩
    · cases hsome
  · rintro ⟨d, hd⟩
    obtain ⟨hyear, hmonth, hday⟩ := d.isDay.lt
    rw [hd, d.toText_toList, ofIso?_dayText hyear hmonth hday, Date.ofNumbers?, dif_pos d.isDay]
    rfl

namespace Recognizer

theorem char_iff {p : Char → Bool} {rest : List Char} :
    char p cs = some rest ↔ ∃ c, cs = c :: rest ∧ p c = true := by
  unfold char
  split
  · rename_i c more
    split
    · grind
    · grind
  · simp

theorem chars_nil {rest : List Char} : chars [] cs = some rest ↔ cs = rest := by
  rw [chars, Option.some.injEq]

theorem chars_cons {p : Char → Bool} {ps : List (Char → Bool)} {rest : List Char} :
    chars (p :: ps) cs = some rest ↔
      ∃ c more, cs = c :: more ∧ p c = true ∧ chars ps more = some rest := by
  rw [chars, Option.bind_eq_some_iff]
  simp only [char_iff]
  grind

/-- The digits of a day are read off the front. -/
theorem dayDigits_iff {rest : List Char} :
    dayDigits cs = some rest ↔ ∃ day, cs = day ++ rest ∧ IsDayShape day := by
  simp only [dayDigits, chars_cons, chars_nil, beq_iff_eq]
  constructor
  · rintro ⟨y₁, -, rfl, h₁, y₂, -, rfl, h₂, y₃, -, rfl, h₃, y₄, -, rfl, h₄, -, -, rfl, rfl,
      m₁, -, rfl, h₅, m₂, -, rfl, h₆, -, -, rfl, rfl, d₁, -, rfl, h₇, d₂, -, rfl, h₈, rfl⟩
    exact ⟨_, rfl, [y₁, y₂, y₃, y₄], [m₁, m₂], [d₁, d₂], rfl, rfl, rfl, rfl, by simp [*]⟩
  · rintro ⟨-, rfl, year, month, day, rfl, hyear, hmonth, hday, h⟩
    match year, month, day, hyear, hmonth, hday with
    | [y₁, y₂, y₃, y₄], [m₁, m₂], [d₁, d₂], _, _, _ =>
      simpa using h

/-- The texts of days are those of the calendar. -/
theorem isDay_iff : isDay cs = true ↔ ∃ d : Date, cs = d.toText.toList := by
  rw [isDay, Bool.and_eq_true, beq_iff_eq, dayDigits_iff]
  constructor
  · rintro ⟨⟨day, hcs, hshape⟩, hsome⟩
    rw [List.append_nil] at hcs
    subst hcs
    exact (isSome_ofIso? hshape).1 hsome
  · rintro ⟨d, hd⟩
    have hshape : IsDayShape cs := by
      rw [hd, d.toText_toList]
      exact dayText_shape ..
    exact ⟨⟨cs, (List.append_nil cs).symm, hshape⟩, (isSome_ofIso? hshape).2 ⟨d, hd⟩⟩

end Recognizer

end Assay
