import Assay.Proofs.Immediate
import Assay.Proofs.Merging
import Assay.Proofs.PlainData
import Assay.Proofs.StockFunctions
import Assay.Proofs.WrittenNumbers
import Assay.Schema.OfDefinition
import Mathlib.Data.List.Induction

/-!
# Enumerations of listed values

A list of values makes an enumeration whose entries are named by the texts of the values, so of
values that are written alike only the last one is kept (`Entries.find?_ofTexts`,
`Entries.mem_ofTexts`). Null, truth values and numbers are told apart by how they are written
(`Value.eq_of_text`), and only a text may be written like another value. When no listed text is the
written form of another listed value, the enumeration accepts exactly what is the same as one of the
listed values (`Schema.AcceptsListed`, `listed_values_accepted`). Otherwise it may reject a listed
value (`listed_value_rejected`).
-/

namespace Assay

open Run

/-! ## Written scalars -/

namespace Value

/-- The value is null, a truth value, a number or a text. -/
def isScalar : Value → Bool
  | null | bool _ | int _ | float _ | nan _ | str _ => true
  | _ => false

open Numeral

theorem text_float (x : Binary64) : (float x).text = x.toText := rfl

/-- A number has a reading that is a number, a NaN has its own, and other scalars that are no texts
have none. -/
theorem reading_cases {x : Value} (hx : x.isScalar = true) (hxtext : x.str? = none) :
    (floatReading? x.text = none ∧ (x = null ∨ ∃ b, x = bool b)) ∨
      (floatReading? x.text = some .nan ∧ ∃ a, x = nan a) ∨
      ((∃ r, floatReading? x.text = some r ∧ r ≠ .nan) ∧
        ((∃ n, x = int n) ∨ ∃ y, x = float y)) := by
  cases x with
  | null => exact .inl ⟨by decide, .inl rfl⟩
  | bool b => exact .inl ⟨by cases b <;> decide, .inr ⟨b, rfl⟩⟩
  | nan a => exact .inr (.inl ⟨show floatReading? "nan" = some .nan by decide, a, rfl⟩)
  | int n => exact .inr (.inr ⟨⟨_, floatReading?_toString n, nofun⟩, .inl ⟨n, rfl⟩⟩)
  | float y =>
    refine .inr (.inr ⟨?_, .inr ⟨y, rfl⟩⟩)
    rw [text_float]
    cases y with
    | infinite negative => exact ⟨_, Binary64.floatReading?_infinite negative, nofun⟩
    | finite negative e f =>
      obtain ⟨d, k, hread, -⟩ := Binary64.floatReading?_finite negative e f
      exact ⟨_, hread, nofun⟩
  | str t => cases hxtext
  | _ => cases hx

/-- Scalars that are no texts are told apart by how they are written, except for NaNs. -/
theorem eq_of_text {x y : Value} (hx : x.isScalar = true) (hy : y.isScalar = true)
    (hxtext : x.str? = none) (hytext : y.str? = none) (h : x.text = y.text) :
    x = y ∨ ∃ a, x = nan a := by
  rcases reading_cases hx hxtext with ⟨hnone, hword⟩ | ⟨-, hnan⟩ | ⟨⟨r, hr, hnumber⟩, hkind⟩
  · left
    rcases reading_cases hy hytext with ⟨-, hword'⟩ | ⟨hnan, -⟩ | ⟨⟨r, hr, -⟩, -⟩
    · rcases hword with rfl | ⟨b, rfl⟩ <;> rcases hword' with rfl | ⟨c, rfl⟩
      · rfl
      · cases c <;> exact absurd h (by decide)
      · cases b <;> exact absurd h (by decide)
      · cases b <;> cases c <;> first | rfl | exact absurd h (by decide)
    · rw [← h, hnone] at hnan
      cases hnan
    · rw [← h, hnone] at hr
      cases hr
  · exact .inr hnan
  · left
    rcases reading_cases hy hytext with ⟨hnone, -⟩ | ⟨hnan, -⟩ | ⟨-, hkind'⟩
    · rw [← h, hr] at hnone
      cases hnone
    · rw [← h, hr] at hnan
      exact absurd (Option.some.inj hnan) hnumber
    · rcases hkind with ⟨n, rfl⟩ | ⟨z, rfl⟩ <;> rcases hkind' with ⟨m, rfl⟩ | ⟨w, rfl⟩
      · exact congrArg int (toString_injective h)
      · exact absurd h.symm (Binary64.toText_ne_toString w n)
      · exact absurd h (Binary64.toText_ne_toString z m)
      · exact congrArg float (Binary64.toText_injective h)

/-- Nothing is the same as a NaN. -/
theorem not_same_nan (v : Value) (a : Nat) : v.same (nan a) = false := by
  cases v with
  | float x => simp [same, equals, isFound, numberEquals, units?]
  | cls c => cases c <;> rfl
  | _ => rfl

end Value

/-! ## Listed values by their texts -/

/-- The value stands in the list, and after it no other one that is written like it. -/
def Value.IsLastIn (L : List Value) (x : Value) : Prop :=
  ∃ before after, L = before ++ x :: after ∧ ∀ y ∈ after, y.text ≠ x.text

namespace Entries

/-- The entries of an enumeration of listed values. -/
def ofTexts (L : List Value) : Entries := ofList (L.map fun v => (.str v.text, v))

/-- Under a text stands the last value that is written so. -/
theorem find?_ofTexts (L : List Value) (t : String) :
    find? (ofTexts L) (.str t) = L.reverse.find? fun x => x.text == t := by
  induction L using List.reverseRecOn with
  | nil => rfl
  | append_singleton L x ih =>
    have hformed : ∀ e ∈ L.map (fun v => (Value.str v.text, v)) ++ [(Value.str x.text, x)],
        e.1.wellFormed = true := by
      intro e he
      rcases List.mem_append.1 he with he | he
      · obtain ⟨v, -, rfl⟩ := List.mem_map.1 he
        rfl
      · rw [List.mem_singleton.1 he]
        rfl
    unfold ofTexts at ih ⊢
    rw [List.map_append, List.map_singleton,
      find?_ofList_append (List.pairwise_singleton _ _) hformed, ih, find?_cons,
      List.reverse_append, List.reverse_singleton, List.singleton_append, List.find?_cons]
    have hkey : (Value.str x.text).isFound (.str t) = (x.text == t) := rfl
    rw [hkey]
    cases x.text == t <;> rfl

/-- The last of the values that are written alike is the one that is kept. -/
theorem find?_last {L : List Value} {x : Value} :
    (L.reverse.find? fun y => y.text == x.text) = some x ↔ x.IsLastIn L := by
  rw [List.find?_eq_some_iff_append]
  constructor
  · rintro ⟨-, before, after, hsplit, hapart⟩
    refine ⟨after.reverse, before.reverse, ?_, fun y hy => ?_⟩
    · rw [← List.reverse_reverse L, hsplit]
      simp
    · simpa using hapart y (List.mem_reverse.1 hy)
  · rintro ⟨before, after, rfl, hapart⟩
    refine ⟨beq_self_eq_true _, after.reverse, before.reverse, by simp, fun y hy => ?_⟩
    simpa using hapart y (List.mem_reverse.1 hy)

theorem mem_ofTexts {L : List Value} {x : Value} :
    x ∈ (ofTexts L).map (·.2) ↔ x.IsLastIn L := by
  constructor
  · intro hx
    obtain ⟨⟨k, v⟩, he, rfl⟩ := List.mem_map.1 hx
    have htext : ∃ t, k = .str t := by
      refine forall_ofList (P := fun k _ => ∃ t, k = .str t) ?_ (fun _ _ _ _ hi _ _ => hi) (k, v) he
      intro e he
      obtain ⟨y, -, rfl⟩ := List.mem_map.1 he
      exact ⟨_, rfl⟩
    obtain ⟨t, rfl⟩ := htext
    have hfound : find? (ofTexts L) (.str t) = some v := find?_of_mem (distinct_ofList _) he
    rw [find?_ofTexts] at hfound
    obtain rfl : v.text = t := by simpa using List.find?_some hfound
    exact find?_last.1 hfound
  · intro hlast
    have hfound := find?_last.2 hlast
    rw [← find?_ofTexts] at hfound
    obtain ⟨k, hk, -⟩ := exists_of_find? hfound
    exact List.mem_map.2 ⟨(k, x), hk, rfl⟩

/-- One of the values that are written alike is kept. -/
theorem exists_last {L : List Value} {x : Value} (hx : x ∈ L) :
    ∃ y ∈ L, y.text = x.text ∧ y.IsLastIn L := by
  have hsome : (L.reverse.find? fun y => y.text == x.text).isSome = true :=
    List.find?_isSome.2 ⟨x, List.mem_reverse.2 hx, beq_self_eq_true _⟩
  obtain ⟨y, hy⟩ := Option.isSome_iff_exists.1 hsome
  have htext : y.text = x.text := by simpa using List.find?_some hy
  rw [← htext] at hy
  exact ⟨y, List.mem_reverse.1 (List.mem_of_find?_eq_some hy), htext, find?_last.1 hy⟩

end Entries

/-! ## Enumerations -/

/-- The definition of an enumeration of listed values. -/
def listDefinition (L : List Value) : Entries :=
  [(.str "type", .str "enum"), (.str "values", .list L)]

theorem attach_listDefinition (scope : OfDefinition.Scope) (L : List Value) :
    OfDefinition.attach scope (listDefinition L) = pure := rfl

/-- A definition that lists values makes what the list makes, in a session of its own. -/
theorem buildSchema_list (L : List Value) (strict : Bool) (τ : Session) :
    ∃ ρ, (buildSchema (.dict (listDefinition L)) strict).answer τ =
      (Construct.enumeration (.list L) {}).answer ρ := by
  have hbuild : ∃ ρ scope, (buildSchema (.dict (listDefinition L)) strict).answer τ =
      (Construct.enumeration (.list L) {} >>=
        OfDefinition.attach scope (listDefinition L)).answer ρ := ⟨_, _, rfl⟩
  obtain ⟨ρ, scope, hbuild⟩ := hbuild
  refine ⟨ρ, ?_⟩
  rw [hbuild, attach_listDefinition, bind_pure]

/-- How a schema made of a list accepts values: as they are, if they are the same as one that is
kept, which is the last one that is written so. When no listed text is the written form of another
listed value these are all of them. -/
structure Schema.AcceptsListed (host : Host) (σ : Session) (ctx : Context) (s : Schema Value)
    (L : List Value) : Prop where
  kept : ∀ v w, (safeParse host ctx s v).answer σ = .ok (.accepted w) ↔
    w = v ∧ ∃ x, x.IsLastIn L ∧ v.same x = true
  listed : (∀ x ∈ L, ∀ t, .str t ∈ L → x.text = t → x = .str t) →
    ∀ v w, (safeParse host ctx s v).answer σ = .ok (.accepted w) ↔
      w = v ∧ ∃ x ∈ L, v.same x = true

section

variable {host : Host} {ctx : Context} {σ τ : Session} {s : Schema Value} {error : Value}
  {L : List Value}

/-- The schema that a list makes. -/
theorem enumeration_list (hne : L ≠ []) (error : Value) (τ : Session) :
    ∃ s, (Construct.enumeration (.list L) { error := error }).answer τ = .ok s ∧
      s.form = .enumeration (Entries.ofTexts L) none ∧ s.kind = .str "enum" ∧ s.checks = [] := by
  obtain ⟨x, hx⟩ := List.exists_mem_of_ne_nil L hne
  obtain ⟨y, -, -, hy⟩ := Entries.exists_last hx
  have hfull : Entries.ofTexts L ≠ [] := fun hnil => by
    have hmem := Entries.mem_ofTexts.2 hy
    rw [hnil] at hmem
    cases hmem
  exact enumeration_dict hfull error τ

/-- Values that are the same as a listed one that is not kept are the same as the one that is. -/
theorem exists_last_same (hscalar : ∀ x ∈ L, x.isScalar = true)
    (hapart : ∀ x ∈ L, ∀ t, .str t ∈ L → x.text = t → x = .str t) {v : Value} :
    (∃ x, x.IsLastIn L ∧ v.same x = true) ↔ ∃ x ∈ L, v.same x = true := by
  constructor
  · rintro ⟨x, ⟨before, after, rfl, -⟩, hsame⟩
    exact ⟨x, List.mem_append_right _ List.mem_cons_self, hsame⟩
  -- A text is written like no other value, and other values that are written alike are equal.
  · rintro ⟨x, hx, hsame⟩
    obtain ⟨y, hy, htext, hlast⟩ := Entries.exists_last hx
    refine ⟨y, hlast, ?_⟩
    cases hxtext : x.str? with
    | some t =>
      obtain rfl := Value.str?_eq_some.1 hxtext
      rwa [hapart y hy t hx htext]
    | none =>
      cases hytext : y.str? with
      | some t =>
        obtain rfl := Value.str?_eq_some.1 hytext
        rwa [← hapart x hx t hy htext.symm]
      | none =>
        rcases Value.eq_of_text (hscalar x hx) (hscalar y hy) hxtext hytext htext.symm with
          rfl | ⟨a, rfl⟩
        · exact hsame
        · rw [Value.not_same_nan] at hsame
          cases hsame

/-- A list and a definition that lists the same values make schemas that accept values alike. -/
theorem listed_values_accepted (hne : L ≠ []) (hscalar : ∀ x ∈ L, x.isScalar = true)
    (hown : σ.kinds.evaluator? (.str "enum") = .ok (.builtin .evaluateNode)) (strict : Bool) :
    (∃ s, (Construct.enumeration (.list L) { error := error }).answer τ = .ok s ∧
      s.AcceptsListed host σ ctx L) ∧
    ∃ s, (buildSchema (.dict (listDefinition L)) strict).answer τ = .ok s ∧
      s.AcceptsListed host σ ctx L := by
  have haccepts {s : Schema Value} (hform : s.form = .enumeration (Entries.ofTexts L) none)
      (hkind : s.kind = .str "enum") (hchecks : s.checks = []) : s.AcceptsListed host σ ctx L := by
    have hkept (v w : Value) : (safeParse host ctx s v).answer σ = .ok (.accepted w) ↔
        w = v ∧ ∃ x, x.IsLastIn L ∧ v.same x = true := by
      rw [values_accepted (hkind ▸ hown) hform hchecks]
      refine and_congr_right fun _ => ?_
      constructor
      · rintro ⟨e, he, hsame⟩
        exact ⟨e.2, Entries.mem_ofTexts.1 (List.mem_map_of_mem he), hsame⟩
      · rintro ⟨x, hlast, hsame⟩
        obtain ⟨e, he, rfl⟩ := List.mem_map.1 (Entries.mem_ofTexts.2 hlast)
        exact ⟨e, he, hsame⟩
    refine ⟨hkept, fun hapart v w => ?_⟩
    rw [hkept, exists_last_same hscalar hapart]
  constructor
  · obtain ⟨s, hs, hform, hkind, hchecks⟩ := enumeration_list hne error τ
    exact ⟨s, hs, haccepts hform hkind hchecks⟩
  · obtain ⟨ρ, hρ⟩ := buildSchema_list L strict τ
    obtain ⟨s, hs, hform, hkind, hchecks⟩ := enumeration_list hne .null ρ
    exact ⟨s, hρ.trans hs, haccepts hform hkind hchecks⟩

end

namespace Listed

/-- Values of several types, each written in its own way. -/
def mixed : List Value := [.null, .bool true, .int 1, .str "one"]

/-- A number and its text. -/
def colliding : List Value := [.int 1, .str "1"]

/-- What is made of the number and its text. -/
def onlyText : Schema Value :=
  ⟨0, .str "enum", .enumeration [(.str "1", .str "1")] none, [], [], .null⟩

theorem mixed_apart : ∀ x ∈ mixed, ∀ t, .str t ∈ mixed → x.text = t → x = .str t := by
  intro x hx t ht htext
  have ht : t = "one" := by simpa [mixed] using ht
  subst ht
  have hx : x = .null ∨ x = .bool true ∨ x = .int 1 ∨ x = .str "one" := by simpa [mixed] using hx
  rcases hx with rfl | rfl | rfl | rfl
  · exact absurd htext (by decide)
  · exact absurd htext (by decide)
  · exact absurd htext (by decide)
  · rfl

end Listed

open Listed Stock in
/-- Values that are written differently are all accepted. -/
theorem listed_values_accepted_mixed :
    ∃ s, (Construct.enumeration (.list mixed) {}).answer {} = .ok s ∧
      ∀ v w, (safeParse (hostThat false) {} s v).answer {} = .ok (.accepted w) ↔
        w = v ∧ ∃ x ∈ mixed, v.same x = true := by
  have hown : ({} : Session).kinds.evaluator? (.str "enum") = .ok (.builtin .evaluateNode) := rfl
  obtain ⟨⟨s, hs, haccepts⟩, -⟩ :=
    listed_values_accepted (L := mixed) (List.cons_ne_nil _ _) (by decide) hown false
  exact ⟨s, hs, haccepts.listed mixed_apart⟩

open Listed Stock in
/-- Of a number and its text only the text is kept, so the number is listed and not accepted. -/
theorem listed_value_rejected :
    (∃ x ∈ colliding, (Value.int 1).same x = true) ∧
      (Construct.enumeration (.list colliding) {}).answer {} = .ok onlyText ∧
      ∃ issues, (safeParse (hostThat false) {} onlyText (.int 1)).answer {} =
        .ok (.rejected issues) :=
  ⟨⟨.int 1, List.mem_cons_self, rfl⟩, rfl, _, rfl⟩

end Assay
