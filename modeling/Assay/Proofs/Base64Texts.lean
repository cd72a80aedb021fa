import Assay.Proofs.FormatTexts

/-!
# Base64 texts

Bytes are written in groups of four characters of an alphabet, three bytes to a group, and the last
group is padded (`Base64.encode`). The texts of the format are the padded runs of the alphabet whose
length is a multiple of four (`Base64.IsPadded`), which are the texts that groups make up
(`Base64.Grouped`) and the ones that can be decoded (`Base64.decode?`). The recognizer and the
pattern that issues show both accept exactly these (`base64_texts`).
-/

namespace Assay

open Pattern

namespace Base64

/-! ## Encoding -/

/-- The digits, each at the place of its value. -/
def alphabet : List Char :=
  "ABCDEFGHIJKLMNOPQRSTUVWXYZabcdefghijklmnopqrstuvwxyz0123456789+/".toList

/-- The digit of a value below 64. -/
def digit (n : Nat) : Char := alphabet[n]?.getD '='

/-- The value of a digit. -/
def value? (c : Char) : Option Nat := alphabet.idxOf? c

/-- The last `count` digits of a number. -/
def digitsOf : Nat → Nat → List Char
  | 0, _ => []
  | count + 1, n => digitsOf count (n / 64) ++ [digit (n % 64)]

/-- The number that digits write. -/
def number? (cs : List Char) : Option Nat :=
  cs.foldlM (fun n c => (value? c).map (n * 64 + ·)) 0

/-- The last `count` bytes of a number. -/
def bytesOf : Nat → Nat → List UInt8
  | 0, _ => []
  | count + 1, n => bytesOf count (n / 256) ++ [UInt8.ofNat n]

/-- The number that bytes write. -/
def numberOf (bytes : List UInt8) : Nat := bytes.foldl (fun n b => n * 256 + b.toNat) 0

/-- A group of one to three bytes: one digit more than bytes, the bits that no byte fills zero, and
equals signs for the missing digits. -/
def encodeGroup (bytes : List UInt8) : List Char :=
  digitsOf (bytes.length + 1) (numberOf bytes * 4 ^ (3 - bytes.length)) ++
    List.replicate (3 - bytes.length) '='

/-- The text of bytes. -/
def encode : List UInt8 → List Char
  | [] => []
  | [a] => encodeGroup [a]
  | [a, b] => encodeGroup [a, b]
  | a :: b :: c :: rest => encodeGroup [a, b, c] ++ encode rest

/-- The bytes that two to four digits fill. -/
def read? (digits : List Char) : Option (List UInt8) :=
  (number? digits).map fun n => bytesOf (digits.length - 1) (n / 4 ^ (4 - digits.length))

/-- The bytes of a group. -/
def decodeGroup? : List Char → Option (List UInt8)
  | [a, b, '=', '='] => read? [a, b]
  | [a, b, c, '='] => read? [a, b, c]
  | [a, b, c, d] => read? [a, b, c, d]
  | _ => none

/-- The bytes of a text. Only its last group may be padded. -/
def decode? : List Char → Option (List UInt8)
  | [] => some []
  | a :: b :: c :: d :: rest => (decodeGroup? [a, b, c, d]).bind fun bytes =>
    if d = '=' ∧ rest ≠ [] then none else (decode? rest).map (bytes ++ ·)
  | _ => none

/-! ## Padded runs and groups -/

/-- The length is a multiple of four, and the text is a run of digits and at most two equals
signs. -/
def IsPadded (cs : List Char) : Prop :=
  4 ∣ cs.length ∧ ∃ run n, cs = run ++ List.replicate n '=' ∧ n ≤ 2 ∧ ∀ c ∈ run, c ∈ alphabet

/-- The text is made of groups of four digits, the last perhaps padded. -/
inductive Grouped : List Char → Prop
  | none : Grouped []
  | two {a b : Char} (h : ∀ x ∈ [a, b], x ∈ alphabet) : Grouped [a, b, '=', '=']
  | three {a b c : Char} (h : ∀ x ∈ [a, b, c], x ∈ alphabet) : Grouped [a, b, c, '=']
  | four {a b c d : Char} {rest : List Char} (h : ∀ x ∈ [a, b, c, d], x ∈ alphabet)
      (hrest : Grouped rest) : Grouped (a :: b :: c :: d :: rest)

variable {cs run : List Char} {n : Nat}

theorem ne_equals {c : Char} (h : c ∈ alphabet) : c ≠ '=' := by
  rintro rfl
  exact absurd h (by decide)

theorem Grouped.isPadded (h : Grouped cs) : IsPadded cs := by
  induction h with
  | none => exact ⟨⟨0, rfl⟩, [], 0, rfl, by omega, nofun⟩
  | @two a b h => exact ⟨⟨1, rfl⟩, [a, b], 2, rfl, le_rfl, h⟩
  | @three a b c h => exact ⟨⟨1, rfl⟩, [a, b, c], 1, rfl, by omega, h⟩
  | @four a b c d _ h _ ih =>
    obtain ⟨hlength, run, n, rfl, hn, hrun⟩ := ih
    refine ⟨?_, [a, b, c, d] ++ run, n, rfl, hn, List.forall_mem_append.2 ⟨h, hrun⟩⟩
    rw [List.length_cons, List.length_cons, List.length_cons, List.length_cons]
    omega

/-- A run is taken four digits at a time; what is left says how many equals signs there are. -/
theorem grouped_of_run : ∀ run : List Char, 4 ∣ run.length + n → n ≤ 2 →
    (∀ c ∈ run, c ∈ alphabet) → Grouped (run ++ List.replicate n '=')
  | [], hlength, hn, _ => by
    obtain rfl : n = 0 := by
      change 4 ∣ 0 + n at hlength
      omega
    exact .none
  | [_], hlength, hn, _ => by
    change 4 ∣ 1 + n at hlength
    omega
  | [_, _], hlength, hn, h => by
    obtain rfl : n = 2 := by
      change 4 ∣ 2 + n at hlength
      omega
    exact .two h
  | [_, _, _], hlength, hn, h => by
    obtain rfl : n = 1 := by
      change 4 ∣ 3 + n at hlength
      omega
    exact .three h
  | a :: b :: c :: d :: run, hlength, hn, h => by
    have hdigits : ∀ x ∈ [a, b, c, d] ++ run, x ∈ alphabet := h
    obtain ⟨hgroup, hrun⟩ := List.forall_mem_append.1 hdigits
    refine .four hgroup (grouped_of_run run ?_ hn hrun)
    change 4 ∣ run.length + 4 + n at hlength
    omega

theorem isPadded_iff_grouped : IsPadded cs ↔ Grouped cs := by
  constructor
  · rintro ⟨hlength, run, n, rfl, hn, hrun⟩
    rw [List.length_append, List.length_replicate] at hlength
    exact grouped_of_run run hlength hn hrun
  · exact Grouped.isPadded

/-! ## The recognizer -/

theorem mem_alphabet (c : Char) : c ∈ alphabet ↔ Recognizer.isBase64Digit c = true := by
  constructor
  · have hall : alphabet.all Recognizer.isBase64Digit = true := by decide
    exact List.all_eq_true.1 hall c
  · intro h
    have hsmall : c.toNat < 128 := by
      simp only [Recognizer.isBase64Digit, Recognizer.isAlnum, isAlphanum_eq, Bool.or_eq_true,
        Bool.and_eq_true, decide_eq_true_eq, beq_iff_eq, Char.le_def, UInt32.le_iff_toNat_le] at h
      rcases h with (((⟨-, h⟩ | ⟨-, h⟩) | ⟨-, h⟩) | rfl) | rfl
      · exact Nat.lt_of_le_of_lt h (by decide)
      · exact Nat.lt_of_le_of_lt h (by decide)
      · exact Nat.lt_of_le_of_lt h (by decide)
      · decide
      · decide
    have hall : ∀ n < 128, Recognizer.isBase64Digit (Char.ofNat n) = true →
        Char.ofNat n ∈ alphabet := by decide +kernel
    have hc := hall c.toNat hsmall
    rw [Char.ofNat_toNat] at hc
    exact hc h

theorem isBase64_iff : Recognizer.isBase64 cs = true ↔ Grouped cs := by
  constructor
  · intro h
    fun_induction Recognizer.isBase64 cs with
    | case1 => exact .none
    | case2 a b => exact .two (by simpa [mem_alphabet] using h)
    | case3 a b c => exact .three (by simpa [mem_alphabet, and_assoc] using h)
    | case4 a b c d rest _ _ ih =>
      obtain ⟨hgroup, hrest⟩ := Bool.and_eq_true_iff.1 h
      exact .four (fun x hx => (mem_alphabet x).2 (List.all_eq_true.1 hgroup x hx)) (ih hrest)
    | case5 => cases h
  · intro h
    induction h with
    | none => rfl
    | two h => simpa [Recognizer.isBase64, mem_alphabet] using h
    | @three a b c h =>
      have hc := ne_equals (h c (by simp))
      rw [Recognizer.isBase64]
      · simpa [mem_alphabet, and_assoc] using h
      · exact hc
    | @four a b c d rest h hrest ih =>
      have hd := ne_equals (h d (by simp))
      rw [Recognizer.isBase64, ih, Bool.and_true, List.all_eq_true]
      · exact fun x hx => (mem_alphabet x).1 (h x hx)
      · exact fun _ hd' _ => hd hd'
      · exact fun hd' _ => hd hd'

/-! ## The pattern -/

/-- A digit of the alphabet. -/
def digitPattern : Pattern :=
  set false false [.range '0' '9', .range 'a' 'z', .range 'A' 'Z', .single '+', .single '/']

/-- The padded end of a text. -/
def tailPattern : Pattern :=
  alt (seq (rep digitPattern 2 (some 2)) (seq (char false '=') (char false '=')))
    (seq (rep digitPattern 3 (some 3)) (char false '='))

/-- What the text of the pattern writes. -/
def pattern : Pattern :=
  seq (rep (rep digitPattern 4 (some 4)) 0 none) (rep tailPattern 0 (some 1))

theorem language_digits (n : Nat) : cs ∈ (rep digitPattern n (some n)).language ↔
    cs.length = n ∧ ∀ c ∈ cs, c ∈ alphabet := by
  have hdigit (c : Char) : setHolds false false
      [.range '0' '9', .range 'a' 'z', .range 'A' 'Z', .single '+', .single '/'] c = true ↔
        c ∈ alphabet := by
    rw [mem_alphabet]
    simp only [setHolds, SetItem.holds, Recognizer.isBase64Digit, Recognizer.isAlnum,
      isAlphanum_eq]
    grind
  rw [language_exactly, digitPattern, language, mem_letter_pow]
  simp only [hdigit]

theorem mem_tail : cs ∈ tailPattern.language ↔
    (∃ a b, cs = [a, b, '=', '='] ∧ ∀ x ∈ [a, b], x ∈ alphabet) ∨
      ∃ a b c, cs = [a, b, c, '='] ∧ ∀ x ∈ [a, b, c], x ∈ alphabet := by
  simp only [tailPattern, mem_alt, mem_seq (p := rep ..), language_digits, mem_char_seq, mem_char]
  constructor
  · rintro (⟨digits, -, rfl, ⟨hlength, h⟩, -, rfl, rfl⟩ | ⟨digits, -, rfl, ⟨hlength, h⟩, rfl⟩)
    · obtain ⟨a, b, rfl⟩ := List.length_eq_two.1 hlength
      exact .inl ⟨a, b, rfl, h⟩
    · obtain ⟨a, b, c, rfl⟩ := List.length_eq_three.1 hlength
      exact .inr ⟨a, b, c, rfl, h⟩
  · rintro (⟨a, b, rfl, h⟩ | ⟨a, b, c, rfl, h⟩)
    · exact .inl ⟨[a, b], ['=', '='], rfl, ⟨rfl, h⟩, _, rfl, rfl⟩
    · exact .inr ⟨[a, b, c], ['='], rfl, ⟨rfl, h⟩, rfl⟩

theorem language_iff : cs ∈ pattern.language ↔ Grouped cs := by
  simp only [pattern, mem_seq, mem_star, mem_optional, mem_tail]
  constructor
  · rintro ⟨-, tail, rfl, ⟨groups, rfl, hgroups⟩, htail⟩
    induction groups with
    | nil =>
      rcases htail with rfl | ⟨a, b, rfl, h⟩ | ⟨a, b, c, rfl, h⟩
      · exact .none
      · exact .two h
      · exact .three h
    | cons group groups ih =>
      obtain ⟨hgroup, hrest⟩ := List.forall_mem_cons.1 hgroups
      obtain ⟨hlength, h⟩ := (language_digits 4).1 hgroup
      match group, hlength with
      | [a, b, c, d], _ => exact .four h (ih hrest)
  · intro h
    induction h with
    | none => exact ⟨[], [], rfl, ⟨[], rfl, nofun⟩, .inl rfl⟩
    | @two a b h => exact ⟨[], _, rfl, ⟨[], rfl, nofun⟩, .inr (.inl ⟨a, b, rfl, h⟩)⟩
    | @three a b c h => exact ⟨[], _, rfl, ⟨[], rfl, nofun⟩, .inr (.inr ⟨a, b, c, rfl, h⟩)⟩
    | @four a b c d _ h _ ih =>
      obtain ⟨-, tail, rfl, ⟨groups, rfl, hgroups⟩, htail⟩ := ih
      refine ⟨[a, b, c, d] ++ groups.flatten, tail, rfl, ⟨[a, b, c, d] :: groups, rfl, ?_⟩, htail⟩
      exact List.forall_mem_cons.2 ⟨(language_digits 4).2 ⟨rfl, h⟩, hgroups⟩

/-! ## Decoding -/

theorem value?_isSome {c : Char} : (value? c).isSome = true ↔ c ∈ alphabet :=
  List.isSome_idxOf?

theorem value?_digit : ∀ n < 64, value? (digit n) = some n := by decide +kernel

theorem number?_append (cs : List Char) (c : Char) : number? (cs ++ [c]) =
    (number? cs).bind fun n => (value? c).map (n * 64 + ·) := by
  rw [number?, List.foldlM_append]
  cases h : cs.foldlM (fun n c => (value? c).map (n * 64 + ·)) 0 <;> simp [number?, h]

theorem number?_isSome : (number? cs).isSome = true ↔ ∀ c ∈ cs, c ∈ alphabet := by
  induction cs using List.reverseRecOn with
  | nil => simp [number?]
  | append_singleton cs c ih =>
    rw [number?_append, List.forall_mem_append, ← ih, List.forall_mem_singleton, ← value?_isSome]
    cases number? cs <;> simp

theorem read?_isSome : (read? cs).isSome = true ↔ ∀ c ∈ cs, c ∈ alphabet := by
  rw [read?, Option.isSome_map, number?_isSome]

theorem decodeGroup?_two (a b : Char) : decodeGroup? [a, b, '=', '='] = read? [a, b] := rfl

theorem decodeGroup?_three {c : Char} (a b : Char) (hc : c ≠ '=') :
    decodeGroup? [a, b, c, '='] = read? [a, b, c] := by
  rw [decodeGroup?]
  exact hc

theorem decodeGroup?_four {d : Char} (a b c : Char) (hd : d ≠ '=') :
    decodeGroup? [a, b, c, d] = read? [a, b, c, d] := by
  rw [decodeGroup?]
  · exact fun _ hd' => hd hd'
  · exact hd

theorem decode?_last (a b c d : Char) : decode? [a, b, c, d] = decodeGroup? [a, b, c, d] := by
  rw [decode?]
  cases decodeGroup? [a, b, c, d] <;> simp [decode?]

theorem decode?_group {d : Char} (a b c : Char) (rest : List Char) (hd : d ≠ '=') :
    decode? (a :: b :: c :: d :: rest) =
      (read? [a, b, c, d]).bind fun bytes => (decode? rest).map (bytes ++ ·) := by
  rw [decode?, decodeGroup?_four a b c hd]
  simp only [hd, false_and, if_false]

/-- What stands after a padded group cannot be read. -/
theorem decode?_padded (a b c : Char) {rest : List Char} (hrest : rest ≠ []) :
    decode? (a :: b :: c :: '=' :: rest) = none := by
  rw [decode?]
  cases decodeGroup? [a, b, c, '='] <;> simp [hrest]

/-- The bytes of groups are decoded one group after the other. -/
theorem Grouped.decoded (h : Grouped cs) : ∃ groups bytes, cs = groups.flatten ∧
    List.Forall₂ (fun g bs => g.length = 4 ∧ decodeGroup? g = some bs) groups bytes ∧
      decode? cs = some bytes.flatten := by
  induction h with
  | none => exact ⟨[], [], rfl, .nil, rfl⟩
  | @two a b h =>
    obtain ⟨bytes, hbytes⟩ := Option.isSome_iff_exists.1 (read?_isSome.2 h)
    rw [← decodeGroup?_two] at hbytes
    refine ⟨[[a, b, '=', '=']], [bytes], rfl, .cons ⟨rfl, hbytes⟩ .nil, ?_⟩
    rw [decode?_last, hbytes, List.flatten_singleton]
  | @three a b c h =>
    obtain ⟨bytes, hbytes⟩ := Option.isSome_iff_exists.1 (read?_isSome.2 h)
    rw [← decodeGroup?_three a b (ne_equals (h c (by simp)))] at hbytes
    refine ⟨[[a, b, c, '=']], [bytes], rfl, .cons ⟨rfl, hbytes⟩ .nil, ?_⟩
    rw [decode?_last, hbytes, List.flatten_singleton]
  | @four a b c d rest h _ ih =>
    have hd := ne_equals (h d (by simp))
    obtain ⟨bytes, hbytes⟩ := Option.isSome_iff_exists.1 (read?_isSome.2 h)
    obtain ⟨groups, more, rfl, hgroups, hmore⟩ := ih
    refine ⟨[a, b, c, d] :: groups, bytes :: more, rfl, .cons ⟨rfl, ?_⟩ hgroups, ?_⟩
    · rw [decodeGroup?_four a b c hd, hbytes]
    · rw [decode?_group a b c _ hd, hbytes, hmore]
      rfl

/-- Only groups can be decoded. -/
theorem grouped_of_decode? {bytes : List UInt8} (h : decode? cs = some bytes) : Grouped cs := by
  fun_induction decode? cs generalizing bytes with
  | case1 => exact .none
  | case2 a b c d rest ih =>
    rw [← decode?] at h
    by_cases hd : d = '='
    · subst hd
      obtain rfl : rest = [] := by
        by_contra hrest
        rw [decode?_padded a b c hrest] at h
        cases h
      rw [decode?_last] at h
      by_cases hc : c = '='
      · subst hc
        exact .two (read?_isSome.1 (Option.isSome_of_eq_some h))
      · rw [decodeGroup?_three a b hc] at h
        exact .three (read?_isSome.1 (Option.isSome_of_eq_some h))
    · rw [decode?_group a b c rest hd] at h
      obtain ⟨group, hgroup, hrest⟩ := Option.bind_eq_some_iff.1 h
      obtain ⟨more, hmore, -⟩ := Option.map_eq_some_iff.1 hrest
      exact .four (read?_isSome.1 (Option.isSome_of_eq_some hgroup)) (ih hmore)
  | case3 => cases h

theorem length_digitsOf (count n : Nat) : (digitsOf count n).length = count := by
  induction count generalizing n with
  | zero => rfl
  | succ count ih => rw [digitsOf, List.length_append, ih, List.length_singleton]

theorem number?_digitsOf (count n : Nat) : number? (digitsOf count n) = some (n % 64 ^ count) := by
  induction count generalizing n with
  | zero => rw [pow_zero, Nat.mod_one, digitsOf]; rfl
  | succ count ih =>
    rw [digitsOf, number?_append, ih, value?_digit _ (Nat.mod_lt n (by decide)), pow_succ',
      Nat.mod_mul]
    simp only [Option.bind_some, Option.map_some, Option.some.injEq]
    omega

theorem numberOf_append (bytes : List UInt8) (b : UInt8) :
    numberOf (bytes ++ [b]) = numberOf bytes * 256 + b.toNat := by
  rw [numberOf, List.foldl_append]
  rfl

theorem bytesOf_numberOf (bytes : List UInt8) : bytesOf bytes.length (numberOf bytes) = bytes := by
  induction bytes using List.reverseRecOn with
  | nil => rfl
  | append_singleton bytes b ih =>
    have hb := b.toNat_lt
    rw [List.length_append, List.length_singleton, numberOf_append, bytesOf,
      show (numberOf bytes * 256 + b.toNat) / 256 = numberOf bytes by omega, ih]
    have hlast : UInt8.ofNat (numberOf bytes * 256 + b.toNat) = b := by
      rw [← UInt8.toNat_inj, UInt8.toNat_ofNat']
      omega
    rw [hlast]

theorem numberOf_lt (bytes : List UInt8) : numberOf bytes < 256 ^ bytes.length := by
  induction bytes using List.reverseRecOn with
  | nil => decide
  | append_singleton bytes b ih =>
    have hb := b.toNat_lt
    rw [List.length_append, List.length_singleton, numberOf_append, pow_succ]
    omega

theorem read?_digitsOf (bytes : List UInt8) (hpos : 0 < bytes.length) (hle : bytes.length ≤ 3) :
    read? (digitsOf (bytes.length + 1) (numberOf bytes * 4 ^ (3 - bytes.length))) = some bytes := by
  have hfits : numberOf bytes * 4 ^ (3 - bytes.length) < 64 ^ (bytes.length + 1) := by
    have hlt := numberOf_lt bytes
    generalize bytes.length = k at *
    obtain rfl | rfl | rfl : k = 1 ∨ k = 2 ∨ k = 3 := by omega
    all_goals omega
  rw [read?, number?_digitsOf, length_digitsOf, Nat.mod_eq_of_lt hfits, Option.map_some,
    show 4 - (bytes.length + 1) = 3 - bytes.length by omega,
    Nat.mul_div_cancel _ (Nat.pow_pos (by decide)), Nat.add_sub_cancel, bytesOf_numberOf]

/-- Digits that are written are no equals signs. -/
theorem ne_of_mem_digitsOf {c : Char} {count n : Nat} (h : c ∈ digitsOf count n) : c ≠ '=' := by
  have hall := number?_isSome.1 (Option.isSome_of_eq_some (number?_digitsOf count n))
  exact ne_equals (hall c h)

theorem decode?_encode (bytes : List UInt8) : decode? (encode bytes) = some bytes := by
  fun_induction encode bytes with
  | case1 => rfl
  | case2 a =>
    obtain ⟨x, y, hdigits⟩ : ∃ x y, digitsOf 2 (numberOf [a] * 4 ^ 2) = [x, y] := ⟨_, _, rfl⟩
    have hread := read?_digitsOf [a] Nat.one_pos (by simp)
    calc decode? (encodeGroup [a])
        = decode? (digitsOf 2 (numberOf [a] * 4 ^ 2) ++ ['=', '=']) := rfl
      _ = read? (digitsOf 2 (numberOf [a] * 4 ^ 2)) := by
        rw [hdigits]
        exact decode?_last x y '=' '='
      _ = some [a] := hread
  | case3 a b =>
    obtain ⟨x, y, z, hdigits⟩ : ∃ x y z, digitsOf 3 (numberOf [a, b] * 4 ^ 1) = [x, y, z] :=
      ⟨_, _, _, rfl⟩
    have hread := read?_digitsOf [a, b] Nat.two_pos (by simp)
    have hz : z ≠ '=' := by
      apply ne_of_mem_digitsOf
      rw [hdigits]
      simp
    calc decode? (encodeGroup [a, b])
        = decode? (digitsOf 3 (numberOf [a, b] * 4 ^ 1) ++ ['=']) := rfl
      _ = read? (digitsOf 3 (numberOf [a, b] * 4 ^ 1)) := by
        rw [hdigits, ← decodeGroup?_three x y hz]
        exact decode?_last x y z '='
      _ = some [a, b] := hread
  | case4 a b c rest ih =>
    obtain ⟨w, x, y, z, hdigits⟩ :
        ∃ w x y z, digitsOf 4 (numberOf [a, b, c] * 4 ^ 0) = [w, x, y, z] := ⟨_, _, _, _, rfl⟩
    have hread := read?_digitsOf [a, b, c] (by simp) (by simp)
    have hz : z ≠ '=' := by
      apply ne_of_mem_digitsOf
      rw [hdigits]
      simp
    calc decode? (encodeGroup [a, b, c] ++ encode rest)
        = decode? (digitsOf 4 (numberOf [a, b, c] * 4 ^ 0) ++ [] ++ encode rest) := rfl
      _ = (read? (digitsOf 4 (numberOf [a, b, c] * 4 ^ 0))).bind fun bytes =>
          (decode? (encode rest)).map (bytes ++ ·) := by
        rw [hdigits]
        exact decode?_group w x y _ hz
      _ = some (a :: b :: c :: rest) := by
        rw [show read? (digitsOf 4 (numberOf [a, b, c] * 4 ^ 0)) = some [a, b, c] from hread, ih]
        rfl

example : encode [77, 97] = "TWE=".toList := by decide

/-- What is written for bytes is a padded run. -/
theorem encode_isPadded (bytes : List UInt8) : IsPadded (encode bytes) :=
  (grouped_of_decode? (decode?_encode bytes)).isPadded

end Base64

/-! ## The format -/

variable {host : Host} {ctx : Context} {σ τ : Session} {s : Schema Value}
  {coerce abort error : Value}

open Base64 in
/-- A node of the format accepts the padded runs and no other texts, and its pattern matches the
same ones. What is written for bytes is accepted, and is decoded to them again. An accepted text is
made of groups of four characters, each of which can be decoded. -/
theorem base64_texts
    (hs : (Construct.format .base64 coerce abort { error := error }).answer τ = .ok s)
    (hown : σ.kinds.evaluator? (.str "string") = .ok (.builtin .evaluateNode)) :
    s.AcceptsTexts host ctx σ IsPadded ∧ StringFormat.base64.Shows IsPadded ∧
      (∀ bytes, (safeParse host ctx s (.str (String.ofList (encode bytes)))).answer σ =
          .ok (.accepted (.str (String.ofList (encode bytes)))) ∧
        decode? (encode bytes) = some bytes) ∧
      ∀ t w, (safeParse host ctx s (.str t)).answer σ = .ok (.accepted w) →
        ∃ groups bytes, t.toList = groups.flatten ∧
          List.Forall₂ (fun g bs => g.length = 4 ∧ decodeGroup? g = some bs) groups bytes ∧
            decode? t.toList = some bytes.flatten := by
  have haccepts : s.AcceptsTexts host ctx σ IsPadded := by
    refine format_accepts hs hown fun t => ?_
    rw [isPadded_iff_grouped, ← isBase64_iff]
    rfl
  refine ⟨haccepts, ⟨_, pattern, rfl, by cbv, fun t => ?_⟩, fun bytes => ⟨?_, decode?_encode bytes⟩,
    fun t w h => ?_⟩
  · rw [matchesWhole_language rfl rfl, language_iff, isPadded_iff_grouped]
  · refine (haccepts _ _).2 ⟨rfl, ?_⟩
    rw [String.toList_ofList]
    exact encode_isPadded bytes
  · have hpadded := ((haccepts t w).1 h).2
    exact (isPadded_iff_grouped.1 hpadded).decoded

open Base64 Stock in
/-- Two bytes are written with one equals sign. -/
theorem base64_texts_pair :
    (safeParse (hostThat false) {} StringFormat.base64.node (.str "TWE=")).answer {} =
        .ok (.accepted (.str "TWE=")) ∧
      decode? "TWE=".toList = some [77, 97] := by
  have hpair : (safeParse (hostThat false) {} StringFormat.base64.node
        (.str (String.ofList (encode [77, 97])))).answer {} =
          .ok (.accepted (.str (String.ofList (encode [77, 97])))) ∧
        decode? (encode [77, 97]) = some [77, 97] :=
    (base64_texts (StringFormat.node_made .base64) rfl).2.2.1 [77, 97]
  have htext : encode [77, 97] = "TWE=".toList := by decide
  rwa [htext, String.ofList_toList] at hpair

end Assay
