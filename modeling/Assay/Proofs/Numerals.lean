import Assay.Number.Numeral

/-!
# Reading written numbers

A numeral of digits, signs, points and exponent marks is read as it stands, since nothing in it is
white space, an underscore or a word (`floatReading?_plain`). After its sign it has digits, which
may go on behind a point, and then what may be an exponent (`unsigned?_whole`, `unsigned?_places`).
So a written integer is read as its sign and its digits (`floatReading?_toString`).
-/

namespace Assay

/-! ## Characters of plain numerals -/

namespace Text

/-- A digit, sign, point or exponent mark, as plain numerals are written with. -/
def isPlain (c : Char) : Bool :=
  isAsciiDigit c || c == '+' || c == '-' || c == '.' || c == 'e'

variable {c : Char}

theorem isAsciiDigit_iff : isAsciiDigit c = true ↔ 48 ≤ c.toNat ∧ c.toNat ≤ 57 := by
  rw [isAsciiDigit, Bool.and_eq_true, decide_eq_true_eq, decide_eq_true_eq]
  rfl

theorem isPlain_of_isAsciiDigit (h : isAsciiDigit c = true) : isPlain c = true := by
  simp [isPlain, h]

theorem plain_cases (h : isPlain c = true) :
    isAsciiDigit c = true ∨ c = '+' ∨ c = '-' ∨ c = '.' ∨ c = 'e' := by
  simpa [isPlain, or_assoc] using h

/-- A digit is worth its distance from zero. -/
theorem decimalValue?_of_isAsciiDigit (h : isAsciiDigit c = true) :
    decimalValue? c = some (c.toNat - 48) := by
  obtain ⟨hlow, hhigh⟩ := isAsciiDigit_iff.1 h
  have hzero : decimalZeros.find? (fun z => z ≤ c.toNat && c.toNat < z + 10) = some 48 := by
    rw [← Array.find?_toList]
    exact List.find?_cons_of_pos (by simp only [Bool.and_eq_true, decide_eq_true_eq]; omega)
  rw [decimalValue?, hzero]
  rfl

theorem isBlank_of_isPlain (h : isPlain c = true) : isBlank c = false := by
  rcases plain_cases h with h | rfl | rfl | rfl | rfl
  · obtain ⟨hlow, hhigh⟩ := isAsciiDigit_iff.1 h
    simp only [isBlank, Bool.or_eq_false_iff, Bool.and_eq_false_iff, beq_eq_false_iff_ne,
      decide_eq_false_iff_not]
    omega
  all_goals decide

/-- The words for infinity and NaN have a letter that no plain numeral has. -/
theorem toLower_ne_of_isPlain (h : isPlain c = true) : c.toLower ≠ 'n' := by
  rcases plain_cases h with h | rfl | rfl | rfl | rfl
  · obtain ⟨hlow, hhigh⟩ := isAsciiDigit_iff.1 h
    have hlower : c.toLower = c := dif_neg fun hupper => by
      have : 65 ≤ c.toNat := hupper.1
      omega
    rw [hlower]
    rintro rfl
    revert hhigh
    decide
  all_goals decide

theorem natOfDigits_eq (cs : List Char) : natOfDigits cs = Nat.ofDigitChars 10 cs 0 := by
  rw [natOfDigits, Nat.ofDigitChars_eq_foldl]
  refine congrFun (congrFun (congrArg List.foldl ?_) 0) cs
  funext n c
  rw [Nat.mul_comm]
  rfl

@[simp] theorem natOfDigits_toDigits (n : Nat) : natOfDigits (Nat.toDigits 10 n) = n := by
  rw [natOfDigits_eq, Nat.ofDigitChars_ten_toDigits]

theorem isAsciiDigit_toDigits {n : Nat} (h : c ∈ Nat.toDigits 10 n) : isAsciiDigit c = true := by
  have hdigit : c.isDigit = true := Nat.isDigit_of_mem_toDigits (by decide) (by decide) h
  rwa [Char.isDigit] at hdigit

/-- Padding a number to one digit more adds its last one. -/
theorem padded_toDigits {base : Nat} (hbase : 1 < base) (w n : Nat) :
    List.replicate (w + 1 + 1 - (Nat.toDigits base n).length) '0' ++ Nat.toDigits base n =
      List.replicate (w + 1 - (Nat.toDigits base (n / base)).length) '0' ++
        Nat.toDigits base (n / base) ++ [Nat.digitChar (n % base)] := by
  by_cases hsmall : n < base
  · rw [Nat.div_eq_of_lt hsmall, Nat.mod_eq_of_lt hsmall, Nat.toDigits_of_lt_base hsmall,
      Nat.toDigits_of_lt_base (Nat.zero_lt_of_lt hsmall)]
    show List.replicate (w + 1) '0' ++ _ = List.replicate w '0' ++ ['0'] ++ _
    rw [List.replicate_succ']
  · rw [Nat.toDigits_of_base_le hbase (Nat.le_of_not_lt hsmall), List.length_append,
      List.length_singleton, Nat.add_sub_add_right, List.append_assoc]

theorem trimList_eq_self {p : Char → Bool} {cs : List Char} (h : ∀ c ∈ cs, p c = false) :
    trimList p cs = cs := by
  have hself (ds : List Char) (hds : ∀ c ∈ ds, p c = false) : ds.dropWhile p = ds := by
    cases ds with
    | nil => rfl
    | cons d ds => exact List.dropWhile_cons_of_neg (by simp [hds d])
  rw [trimList, hself cs h, hself cs.reverse (fun c hc => h c (List.mem_reverse.1 hc)),
    List.reverse_reverse]

/-- A run of characters of a class ends where another character or nothing follows. -/
theorem takeWhile_stops {p : Char → Bool} {run rest : List Char} (hrun : ∀ c ∈ run, p c = true)
    (hrest : ∀ c ∈ rest.head?, p c = false) :
    (run ++ rest).takeWhile p = run ∧ (run ++ rest).dropWhile p = rest := by
  rw [List.takeWhile_append_of_pos hrun, List.dropWhile_append_of_pos hrun]
  cases rest with
  | nil => simp
  | cons c rest => simp [hrest c rfl]

end Text

namespace Numeral

open Text

variable {cs : List Char} {negative : Bool}

theorem asciiDigits_plain (h : ∀ c ∈ cs, isPlain c = true) : asciiDigits cs = cs := by
  rw [asciiDigits]
  refine (List.map_congr_left fun c hc => ?_).trans (List.map_id cs)
  rw [isBlank_of_isPlain (h c hc)]
  rcases plain_cases (h c hc) with hdigit | rfl | rfl | rfl | rfl
  · rw [decimalValue?_of_isAsciiDigit hdigit]
    have hlow := (isAsciiDigit_iff.1 hdigit).1
    show Char.ofNat (48 + (c.toNat - 48)) = c
    rw [Nat.add_sub_cancel' hlow, Char.ofNat_toNat]
  all_goals decide

theorem dropUnderscores_plain {previous : Char} (hprevious : previous ≠ '_')
    (h : ∀ c ∈ cs, isPlain c = true) : dropUnderscores previous cs = some cs := by
  induction cs generalizing previous with
  | nil => simp [dropUnderscores, hprevious]
  | cons c cs ih =>
    obtain ⟨hc, hcs⟩ := List.forall_mem_cons.1 h
    have hne : c ≠ '_' := by
      rintro rfl
      exact absurd hc (by decide)
    simp [dropUnderscores, hprevious, hne, ih hne hcs]

theorem sign_plain (h : ∀ c ∈ cs, isPlain c = true) : ∀ c ∈ (sign cs).2, isPlain c = true := by
  intro c hc
  unfold sign at hc
  split at hc
  · exact h c (List.mem_cons_of_mem _ hc)
  · exact h c (List.mem_cons_of_mem _ hc)
  · exact h c hc

/-- A plain numeral is read as it stands, after its sign. -/
theorem floatReading?_plain {s : String} (h : ∀ c ∈ s.toList, isPlain c = true) :
    floatReading? s = unsigned? (sign s.toList).1 (sign s.toList).2 := by
  have hword (word : List Char) (hn : 'n' ∈ word) :
      (lowerAscii (sign s.toList).2 == word) = false := by
    refine beq_eq_false_iff_ne.2 fun heq => ?_
    obtain ⟨c, hc, hlower⟩ := List.mem_map.1 (heq ▸ hn : 'n' ∈ lowerAscii (sign s.toList).2)
    exact toLower_ne_of_isPlain (sign_plain h c hc) hlower
  unfold floatReading?
  rw [asciiDigits_plain h, trimList_eq_self fun c hc => isBlank_of_isPlain (h c hc)]
  dsimp only
  rw [hword _ (by decide), hword _ (by decide), hword _ (by decide),
    dropUnderscores_plain (by decide) (sign_plain h)]
  rfl

theorem floatReading?_unsigned {s : String} (h : ∀ c ∈ s.toList, isPlain c = true)
    (hfirst : ∀ c ∈ s.toList.head?, isAsciiDigit c = true) :
    floatReading? s = unsigned? false s.toList := by
  have hsign : sign s.toList = (false, s.toList) := by
    unfold sign
    split
    · rename_i heq
      exact absurd (hfirst '-' (by rw [heq]; rfl)) (by decide)
    · rename_i heq
      exact absurd (hfirst '+' (by rw [heq]; rfl)) (by decide)
    · rfl
  rw [floatReading?_plain h, hsign]

theorem floatReading?_minus {s : String} (h : ∀ c ∈ s.toList, isPlain c = true) :
    floatReading? ("-" ++ s) = unsigned? true s.toList := by
  have hlist : ("-" ++ s).toList = '-' :: s.toList := String.toList_append
  rw [floatReading?_plain, hlist]
  · rfl
  · rw [hlist]
    exact List.forall_mem_cons.2 ⟨rfl, h⟩

/-! ## The parts of a numeral -/

section

variable {whole places tail : List Char} {e : Int}

/-- Digits without a point. -/
theorem unsigned?_whole (hne : whole ≠ []) (hwhole : ∀ c ∈ whole, isAsciiDigit c = true)
    (htail : ∀ c ∈ tail.head?, isAsciiDigit c = false ∧ c ≠ '.')
    (he : exponent? tail = some e) :
    unsigned? negative (whole ++ tail) = some (.decimal negative (natOfDigits whole) e) := by
  obtain ⟨htake, hdrop⟩ := takeWhile_stops hwhole fun c hc => (htail c hc).1
  cases tail with
  | nil =>
    simp only [unsigned?, htake, hdrop, he]
    simp [hne]
  | cons c tail =>
    have hpoint : c ≠ '.' := (htail c rfl).2
    simp only [unsigned?, htake, hdrop]
    simp [hpoint, he, hne]

/-- Digits before a point, and places behind it. -/
theorem unsigned?_places (hne : whole ≠ []) (hwhole : ∀ c ∈ whole, isAsciiDigit c = true)
    (hplaces : ∀ c ∈ places, isAsciiDigit c = true)
    (htail : ∀ c ∈ tail.head?, isAsciiDigit c = false)
    (he : exponent? tail = some e) :
    unsigned? negative (whole ++ '.' :: (places ++ tail)) =
      some (.decimal negative (natOfDigits (whole ++ places)) (e - places.length)) := by
  have hpoint : ∀ c ∈ ('.' :: (places ++ tail)).head?, isAsciiDigit c = false := by
    rintro c ⟨⟩
    decide
  obtain ⟨htake, hdrop⟩ := takeWhile_stops hwhole hpoint
  obtain ⟨htake', hdrop'⟩ := takeWhile_stops hplaces htail
  simp only [unsigned?, htake, hdrop, htake', hdrop', he]
  simp [hne]

end

/-- An integer is written as its digits, after a minus if it is negative. -/
theorem toString_int (n : Int) :
    toString n = if 0 ≤ n then n.natAbs.repr else "-" ++ n.natAbs.repr := by
  rw [Int.toString_eq_repr, Int.repr_eq_if]
  split
  · rw [show n.toNat = n.natAbs by omega]
  · rw [show (-n).toNat = n.natAbs by omega]

theorem isAsciiDigit_repr (n : Nat) : ∀ c ∈ n.repr.toList, isAsciiDigit c = true := by
  intro c hc
  rw [Nat.toList_repr] at hc
  exact isAsciiDigit_toDigits hc

theorem isPlain_repr (n : Nat) : ∀ c ∈ n.repr.toList, isPlain c = true := by
  intro c hc
  exact isPlain_of_isAsciiDigit (isAsciiDigit_repr n c hc)

theorem isPlain_toString (n : Int) : ∀ c ∈ (toString n).toList, isPlain c = true := by
  rw [toString_int]
  split
  · exact isPlain_repr _
  · rw [String.toList_append]
    exact List.forall_mem_cons.2 ⟨rfl, isPlain_repr _⟩

/-- An integer is read as its sign and its digits. -/
theorem floatReading?_toString (n : Int) :
    floatReading? (toString n) = some (.decimal (n < 0) n.natAbs 0) := by
  have hread (negative : Bool) :
      unsigned? negative n.natAbs.repr.toList = some (.decimal negative n.natAbs 0) := by
    have hne : n.natAbs.repr.toList ≠ [] := by
      rw [Nat.toList_repr]
      exact Nat.toDigits_ne_nil
    have hparts : unsigned? negative (n.natAbs.repr.toList ++ []) = _ :=
      unsigned?_whole hne (isAsciiDigit_repr _) (fun _ h => nomatch h) rfl
    rwa [List.append_nil, Nat.toList_repr, natOfDigits_toDigits, ← Nat.toList_repr] at hparts
  rw [toString_int]
  by_cases hn : 0 ≤ n
  · rw [if_pos hn, floatReading?_unsigned (isPlain_repr _), hread, decide_eq_false (by omega)]
    intro c hc
    exact isAsciiDigit_repr _ c (List.mem_of_mem_head? hc)
  · rw [if_neg hn, floatReading?_minus (isPlain_repr _), hread, decide_eq_true (by omega)]

/-- Different integers are written differently. -/
theorem toString_injective {n m : Int} (h : toString n = toString m) : n = m := by
  have hread := floatReading?_toString n
  rw [h, floatReading?_toString] at hread
  injection hread with hread
  injection hread with hsign habs
  by_cases hn : n < 0
  · have hm : m < 0 := by simpa [hn] using hsign
    omega
  · have hm : ¬ m < 0 := by simpa [hn] using hsign
    omega

end Numeral

end Assay
