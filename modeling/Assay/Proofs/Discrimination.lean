import Assay.Proofs.Acceptance
import Assay.Proofs.Adequacy
import Assay.Proofs.Containers
import Assay.Proofs.Levels
import Assay.Proofs.Purity
import Assay.Proofs.StockFunctions

/-!
# Unions that pick their option

A discriminated union looks up one field of its input in a table and reads only the option that
the table gives. The table is put together from the values that the options list for the field,
and no value may be listed twice (`Construct.Tabulates`). The discriminated union makes of a mapping
what the picked option makes of it (`discriminates`). An option that accepts the input lists the
field's value (`Schema.Offers.same`), so the table picks the one option that can accept it, and the
discriminated union accepts what the plain union accepts (`discriminated_as_union`).
-/

namespace Assay

open Run Construct

/-! ## Tables -/

/-- The values of its discriminating field for which an option is picked. -/
inductive Schema.Offers (d : Value) (o : Schema Value) : List Value → Prop
  | field {shape policy catchall key field values} (hform : o.form = .object shape policy catchall)
    (hfield : shape.find? (fun f => f.1.isFound d) = some (key, field))
    (hvalues : enumerated? field = some values) : Offers d o values
  | nested {schemas d' table} (hform : o.form = .discriminatedUnion schemas d' table)
    (hd : d'.equals d = true) : Offers d o (table.map (·.1))

theorem Run.bind_exec_ok {α β : Type} {x : Run α} {f : α → Run β} {b : β} {σ τ : Session} :
    (x >>= f).exec σ = (.ok b, τ) ↔ ∃ a ρ, x.exec σ = (.ok a, ρ) ∧ (f a).exec ρ = (.ok b, τ) := by
  rw [exec_bind]
  rcases x.exec σ with ⟨e | a, ρ⟩
  · simp
  · simp

theorem discriminatorValues_offers {o : Schema Value} {d : Value} {values : List Value}
    {σ τ : Session} (h : (discriminatorValues o d).exec σ = (.ok values, τ)) :
    o.Offers d values := by
  unfold discriminatorValues at h
  split at h
  · rename_i hform
    split at h
    · cases h
      exact .nested hform ‹_›
    · cases h
  · rename_i hform
    obtain ⟨key, ρ, hkey, h⟩ := Run.bind_exec_ok.1 h
    obtain rfl : key = d := by
      unfold hashable at hkey
      split at hkey <;> cases hkey
      rfl
    split at h
    · cases h
    · rename_i hfield
      split at h
      · cases h
        exact .field hform hfield ‹_›
      · cases h
  · cases h

/-- No two values of a table are the same. -/
def Apart (table : List (Value × Nat)) : Prop :=
  table.Pairwise fun e f => f.1.same e.1 = false

theorem addValues_ok {d : Value} {index : Nat} {values : List Value}
    {table table' : List (Value × Nat)} {σ τ : Session} (hapart : Apart table)
    (h : (addValues d index values table).exec σ = (.ok table', τ)) :
    table' = table ++ values.map (·, index) ∧ Apart table' := by
  induction values generalizing table with
  | nil =>
    cases h
    exact ⟨(List.append_nil _).symm, hapart⟩
  | cons v values ih =>
    unfold addValues at h
    split at h
    · cases h
    · rename_i hnew
      simp only [List.any_eq_true, not_exists, not_and, Bool.not_eq_true] at hnew
      have hapart' : Apart (table ++ [(v, index)]) := by
        refine List.pairwise_append.2 ⟨hapart, List.pairwise_singleton _ _, fun e he f hf => ?_⟩
        rw [List.mem_singleton.1 hf]
        exact hnew e he
      obtain ⟨htable, hapart⟩ := ih hapart' h
      exact ⟨by rw [htable, List.append_assoc]; rfl, hapart⟩

/-- A table holds every value that an option offers, with the place of the option, and there is
an option at every place. -/
structure Tabulates (d : Value) (schemas : List (Schema Value)) (table : List (Value × Nat)) :
    Prop where
  apart : Apart table
  offered : ∀ i o, schemas[i]? = some o →
    ∃ values, o.Offers d values ∧ ∀ v ∈ values, (v, i) ∈ table
  places : ∀ e ∈ table, ∃ o, schemas[e.2]? = some o

theorem tableFrom_ok {d : Value} {index : Nat} {schemas : List (Schema Value)}
    {table table' : List (Value × Nat)} {σ τ : Session} (hapart : Apart table)
    (h : (tableFrom d index schemas table).exec σ = (.ok table', τ)) :
    Apart table' ∧ table ⊆ table' ∧
      (∀ i o, schemas[i]? = some o →
        ∃ values, o.Offers d values ∧ ∀ v ∈ values, (v, index + i) ∈ table') ∧
      ∀ e ∈ table', e ∈ table ∨ ∃ i o, e.2 = index + i ∧ schemas[i]? = some o := by
  induction schemas generalizing index table σ with
  | nil =>
    cases h
    exact ⟨hapart, List.Subset.refl _, by simp, fun e he => .inl he⟩
  | cons o schemas ih =>
    obtain ⟨values, ρ, hvalues, h⟩ := Run.bind_exec_ok.1 h
    obtain ⟨more, ρ', hmore, h⟩ := Run.bind_exec_ok.1 h
    obtain ⟨rfl, hapart⟩ := addValues_ok hapart hmore
    obtain ⟨hapart, hsub, hoffered, hplaces⟩ := ih hapart h
    refine ⟨hapart, fun e he => hsub (List.mem_append_left _ he), fun i t ht => ?_,
      fun e he => ?_⟩
    · cases i with
      | zero =>
        obtain rfl : o = t := by simpa using ht
        exact ⟨values, discriminatorValues_offers hvalues, fun v hv =>
          hsub (List.mem_append_right _ (List.mem_map_of_mem hv))⟩
      | succ i =>
        obtain ⟨values, hvalues, hmem⟩ := hoffered i t (by simpa using ht)
        exact ⟨values, hvalues, fun v hv => by
          have := hmem v hv
          rwa [Nat.add_assoc, Nat.add_comm 1 i] at this⟩
    · rcases hplaces e he with he | ⟨i, t, hi, ht⟩
      · rcases List.mem_append.1 he with he | he
        · exact .inl he
        · obtain ⟨v, -, rfl⟩ := List.mem_map.1 he
          exact .inr ⟨0, o, rfl, rfl⟩
      · exact .inr ⟨i + 1, t, by omega, by simpa using ht⟩

theorem tableFrom_tabulates {d : Value} {schemas : List (Schema Value)}
    {table : List (Value × Nat)} {σ τ : Session}
    (h : (tableFrom d 0 schemas []).exec σ = (.ok table, τ)) : Tabulates d schemas table := by
  obtain ⟨hapart, -, hoffered, hplaces⟩ := tableFrom_ok List.Pairwise.nil h
  refine ⟨hapart, fun i o ho => ?_, fun e he => ?_⟩
  · simpa using hoffered i o ho
  · rcases hplaces e he with he | ⟨i, o, hi, ho⟩
    · cases he
    · exact ⟨o, by rw [hi, Nat.zero_add, ho]⟩

theorem optionsFrom_ok {index : Nat} {vs : List Value} {schemas : List (Schema Value)}
    {σ τ : Session} (h : (optionsFrom index vs).exec σ = (.ok schemas, τ)) :
    vs = schemas.map Value.schema := by
  induction vs generalizing index schemas σ with
  | nil =>
    cases h
    rfl
  | cons v vs ih =>
    cases v with
    | schema s =>
      obtain ⟨rest, ρ, hrest, h⟩ := Run.bind_exec_ok.1 h
      cases h
      rw [ih hrest]
      rfl
    | _ => cases h

theorem optionsOf_ok {options : Value} {schemas : List (Schema Value)} {σ τ : Session}
    (h : (optionsOf options).exec σ = (.ok schemas, τ)) :
    options.iterate? = some (schemas.map Value.schema) := by
  obtain ⟨vs, ρ, hvs, h⟩ := Run.bind_exec_ok.1 h
  rw [Construct.items, exec_ofOption] at hvs
  cases hoptions : options.iterate? with
  | none =>
    rw [hoptions] at hvs
    cases hvs
  | some vs' =>
    rw [hoptions] at hvs
    cases hvs
    split at h
    · cases h
    · rw [optionsFrom_ok h]

/-- What is made of options without checks of its own. -/
theorem make_ok {form : Form Value (Schema Value)} {tag : String} (htag : form.tag? = some tag)
    {error : Value} {s : Schema Value} {σ τ : Session}
    (h : (make form { error := error }).exec σ = (.ok s, τ)) :
    s.form = form ∧ s.kind = .str tag ∧ s.checks = [] := by
  obtain ⟨checks, ρ, hchecks, h⟩ := Run.bind_exec_ok.1 h
  cases hchecks
  simp only [List.lookup_nil, Option.filter_none, Option.none_or, htag, Option.map_some] at h
  obtain ⟨ref, ρ', -, h⟩ := Run.bind_exec_ok.1 h
  cases h
  exact ⟨rfl, rfl, rfl⟩

/-- What is made of accepted options. -/
theorem discriminatedUnion_ok {d options error : Value} {s : Schema Value} {σ τ : Session}
    (h : (discriminatedUnion d options { error := error }).exec σ = (.ok s, τ)) :
    ∃ schemas table, options.iterate? = some (schemas.map Value.schema) ∧
      Tabulates d schemas table ∧ s.form = .discriminatedUnion schemas d table ∧
      s.kind = .str "union" ∧ s.checks = [] := by
  obtain ⟨schemas, ρ, hschemas, h⟩ := Run.bind_exec_ok.1 h
  obtain ⟨checks, ρ', -, h⟩ := Run.bind_exec_ok.1 h
  obtain ⟨table, ρ'', htable, h⟩ := Run.bind_exec_ok.1 h
  exact ⟨schemas, table, optionsOf_ok hschemas, tableFrom_tabulates htable, make_ok rfl h⟩

theorem union_ok {options error : Value} {s : Schema Value} {σ τ : Session}
    (h : (union options { error := error }).exec σ = (.ok s, τ)) :
    ∃ schemas, options.iterate? = some (schemas.map Value.schema) ∧ s.form = .union schemas ∧
      s.kind = .str "union" ∧ s.checks = [] := by
  obtain ⟨schemas, ρ, hschemas, h⟩ := Run.bind_exec_ok.1 h
  exact ⟨schemas, optionsOf_ok hschemas, make_ok rfl h⟩

/-! ## Tags -/

/-- The element for which the test succeeds is found if there is no other one. -/
theorem find?_of_unique {α : Type} {test : α → Bool} {xs : List α} {x : α}
    (h : xs.Pairwise fun y z => ¬ (test y = true ∧ test z = true)) (hx : x ∈ xs)
    (htest : test x = true) : xs.find? test = some x := by
  induction xs with
  | nil => cases hx
  | cons y xs ih =>
    obtain ⟨hy, hxs⟩ := List.pairwise_cons.1 h
    rcases List.mem_cons.1 hx with rfl | hx
    · exact List.find?_cons_of_pos htest
    · rw [List.find?_cons_of_neg fun hytest => hy x hx ⟨hytest, htest⟩]
      exact ih hxs hx

/-- In a table in which no values are the same, one entry at most is the same as a tag. -/
theorem Apart.find? {table : List (Value × Nat)} (h : Apart table) {tag : Value}
    (htag : tag.wellFormed = true) {e : Value × Nat} (he : e ∈ table)
    (hsame : tag.same e.1 = true) : table.find? (fun f => tag.same f.1) = some e := by
  -- Two entries for the tag would be the same as one another.
  have hunique : table.Pairwise fun e f => ¬(tag.same e.1 = true ∧ tag.same f.1 = true) :=
    h.imp fun hef ⟨he, hf⟩ => by
      rw [Value.same_trans (Value.same_symm htag hf) he] at hef
      cases hef
  exact find?_of_unique hunique he hsame

/-- A field can be told apart: it is read as what it is, and it lists plain values. -/
structure Schema.PicksBy (σ : Session) (d : Value) (o : Schema Value) : Prop where
  own : o.IsOwn σ
  keys : ∀ shape policy catchall, o.form = .object shape policy catchall →
    ∀ f ∈ shape, f.1.isFound d = true →
      f.1.wellFormed = true ∧ f.2.IsOwn σ ∧ ∀ entries c, f.2.form ≠ .enumeration entries (some c)
  nested : ∀ schemas d' table, o.form = .discriminatedUnion schemas d' table → d'.wellFormed = true

variable {host : Host} {σ : Session} {ctx : Context} {thorough : Bool}

/-- A schema that lists values accepts one of them. -/
theorem same_of_enumerated {field : Schema Value} (hown : field.IsOwn σ)
    (hplain : ∀ entries c, field.form ≠ .enumeration entries (some c)) {values : List Value}
    (hvalues : enumerated? field = some values) {fuel : Nat} {v w : Value}
    (h : meaning host σ ctx thorough fuel field v = .ok (.ok w)) :
    ∃ x ∈ values, v.same x = true := by
  cases fuel with
  | zero => cases h
  | succ fuel =>
    obtain ⟨u, hu, -⟩ := meaning_accepts hown h
    unfold enumerated? at hvalues
    unfold Meaning.form at hu
    cases hform : field.form with
    | literal listed =>
      simp only [hform, Option.some.injEq] at hvalues hu
      subst hvalues
      simp only [Scalar.literal, Except.ok.injEq] at hu
      split at hu
      · exact List.any_eq_true.1 ‹_›
      · cases hu
    | enumeration entries cls =>
      cases cls with
      | some c => exact absurd hform (hplain entries c)
      | none =>
        simp only [hform, Option.some.injEq] at hvalues hu
        subst hvalues
        simp only [Scalar.enumeration, Except.ok.injEq] at hu
        split at hu
        · exact List.any_eq_true.1 ‹_›
        · cases hu
    | _ => simp [hform] at hvalues

/-- An option accepts only mappings in which the discriminating field has a value that the option
offers, if the field accepts only what it lists. -/
theorem Schema.Offers.same_of {d : Value} {o : Schema Value} {values : List Value}
    (h : o.Offers d values) (hown : o.IsOwn σ)
    (hnested : ∀ schemas d' table, o.form = .discriminatedUnion schemas d' table →
      d'.wellFormed = true)
    {v w : Value} {data : Entries} (hdata : v.entries? = some data)
    (hfield : ∀ shape policy catchall f, o.form = .object shape policy catchall → f ∈ shape →
      f.1.isFound d = true → enumerated? f.2 = some values → f.1.wellFormed = true ∧
        ∀ fuel w,
          meaning host σ ctx thorough fuel f.2 ((data.find? d).getD .missing) = .ok (.ok w) →
            ∃ x ∈ values, ((data.find? d).getD .missing).same x = true)
    {fuel : Nat} (hv : meaning host σ ctx thorough fuel o v = .ok (.ok w)) :
    ∃ x ∈ values, ((data.find? d).getD .missing).same x = true := by
  cases fuel with
  | zero => cases hv
  | succ fuel =>
    obtain ⟨u, hu, -⟩ := meaning_accepts hown hv
    unfold Meaning.form at hu
    cases h with
    | @field shape policy catchall key field values hform hfound hvalues =>
      simp only [hform] at hu
      obtain ⟨data', ws, hdata', haccepts, -⟩ := Meaning.object_accepts.1 hu
      obtain rfl : data' = data := Option.some.inj (hdata'.symm.trans hdata)
      have hmem : (key, field) ∈ shape := List.mem_of_find?_eq_some hfound
      have hkey : key.isFound d = true := by simpa using List.find?_some hfound
      obtain ⟨hformed, hlisted⟩ := hfield _ _ _ _ hform hmem hkey hvalues
      have hitem : (field, (data'.find? d).getD .missing) ∈
          (Structure.objectItems shape catchall data').map (·.2) := by
        rw [← Entries.find?_congr hformed hkey]
        exact List.mem_map.2 ⟨_, Structure.objectItems_named hmem, rfl⟩
      obtain ⟨w', -, hw'⟩ := haccepts.of_mem hitem
      exact hlisted _ _ hw'
    | @nested schemas d' table hform hd =>
      simp only [hform, Meaning.discriminated, hdata] at hu
      obtain ⟨key, hkey, hu⟩ := bind_eq_ok.1 hu
      obtain rfl : key = d' := by
        unfold hashable at hkey
        split at hkey <;> cases hkey
        rfl
      rw [Entries.find?_congr (hnested _ _ _ hform) (Value.equals_iff.1 hd).1] at hu
      split at hu
      · rename_i hpick
        obtain ⟨e, he, -⟩ := Option.bind_eq_some_iff.1 hpick
        exact ⟨e.1, List.mem_map_of_mem (List.mem_of_find?_eq_some he), by
          simpa using List.find?_some he⟩
      · cases hu

/-- An option that can be told apart accepts only mappings in which the discriminating field has a
value that the option offers. -/
theorem Schema.Offers.same {d : Value} {o : Schema Value} {values : List Value}
    (h : o.Offers d values) (hpicks : o.PicksBy σ d) {fuel : Nat} {v w : Value}
    (hv : meaning host σ ctx thorough fuel o v = .ok (.ok w)) {data : Entries}
    (hdata : v.entries? = some data) :
    ∃ x ∈ values, ((data.find? d).getD .missing).same x = true := by
  refine h.same_of hpicks.own hpicks.nested hdata (fun _ _ _ f hform hf hkey hvalues => ?_) hv
  obtain ⟨hformed, hown, hplain⟩ := hpicks.keys _ _ _ hform f hf hkey
  exact ⟨hformed, fun _ _ hw => same_of_enumerated hown hplain hvalues hw⟩

/-! ## Options -/

section

variable {recur : Schema Value → Value → Except Fault Result} {v : Value}
  {schemas : List (Schema Value)}

/-- An option without issues is found, or one before it is. -/
theorem valid_of_option {rs : List Result}
    (h : Meaning.options recur thorough v schemas = .ok rs) {o : Schema Value} (ho : o ∈ schemas)
    {r : Result} (hr : recur o v = .ok r) (hvalid : r.valid = true) :
    ∃ r', rs.find? Result.valid = some r' := by
  induction schemas generalizing rs with
  | nil => cases ho
  | cons o' schemas ih =>
    obtain ⟨r', hr', h⟩ := bind_eq_ok.1 h
    split at h
    · rename_i hstop
      cases h
      rw [Bool.and_eq_true] at hstop
      exact ⟨r', by rw [List.find?_cons, hstop.1]⟩
    · obtain ⟨rest, hrest, h⟩ := bind_eq_ok.1 h
      cases h
      rw [List.find?_cons]
      cases hr'valid : r'.valid with
      | true => exact ⟨r', rfl⟩
      | false =>
        rcases List.mem_cons.1 ho with rfl | ho
        · obtain rfl := Except.ok.inj (hr'.symm.trans hr)
          rw [hvalid] at hr'valid
          cases hr'valid
        · exact ih hrest ho

/-- If a table picks every option that accepts the value, a union accepts what the picked option
accepts. -/
theorem union_accepts {pick : Option (Schema Value)} {s : Schema Value} {w : Value}
    (hpick : ∀ o ∈ schemas, ∀ w, recur o v = .ok (.ok w) → pick = some o)
    (hmem : ∀ o, pick = some o → o ∈ schemas) (h : ∀ o ∈ schemas, ∃ r, recur o v = .ok r) :
    (do return unionResult s v (← Meaning.options recur thorough v schemas)) = .ok (.ok w) ↔
      ∃ o, pick = some o ∧ recur o v = .ok (.ok w) := by
  obtain ⟨rs, hrs⟩ := Meaning.options_ok h
  have hresult : (do return unionResult s v (← Meaning.options recur thorough v schemas))
      = .ok (unionResult s v rs) := by
    rw [hrs]
    rfl
  rw [hresult, Except.ok.injEq, unionResult]
  constructor
  · intro hunion
    split at hunion
    · rename_i r hr
      obtain ⟨o, ho, hrecur, hvalid⟩ := Meaning.option_of_valid hrs hr
      rw [Result.eq_ok hvalid] at hrecur
      obtain rfl : r.value = w := congrArg Result.value hunion
      exact ⟨o, hpick o ho _ hrecur, hrecur⟩
    · cases hunion
  · rintro ⟨o, ho, hrecur⟩
    obtain ⟨r, hr⟩ := valid_of_option hrs (hmem o ho) hrecur rfl
    obtain ⟨o', ho', hrecur', hvalid⟩ := Meaning.option_of_valid hrs hr
    rw [Result.eq_ok hvalid] at hrecur'
    obtain rfl := Option.some.inj (ho.symm.trans (hpick o' ho' _ hrecur'))
    have hvalue := Except.ok.inj (hrecur.symm.trans hrecur')
    rw [hr]
    exact hvalue.symm

end

/-! ## Parses -/

/-- What is evaluated without a fault has a meaning. -/
theorem Settled.meaning_ok {I : Session → Prop} {pool : Schema Value → Prop}
    (h : Settled host σ I pool) {s : Schema Value} (hs : pool s) {fuel : Nat} {v : Value}
    {outcome : Outcome Result}
    (hanswer : (evaluate host (ctx.mayWait false) fuel s v).answer σ = .ok outcome) :
    ∃ r, meaning host σ ctx false fuel s v = .ok r := by
  rw [(evaluate_promptly h fuel hs v).answer h.here] at hanswer
  cases hm : meaning host σ ctx false fuel s v with
  | ok r => exact ⟨r, rfl⟩
  | error e =>
    rw [hm] at hanswer
    cases hanswer

/-- What a parse that must not wait answers, of a schema whose functions are pure. -/
theorem Schema.IsPure.parse_answer {s o : Schema Value} (h : s.IsPure host σ) (ctx : Context)
    (ho : s.Reaches host σ o) (v : Value) :
    (safeParse host (ctx.mayWait false) o v).answer σ = Meaning.parsed host σ ctx false o v :=
  (safeParse_gives h.settled (h.words_fixed ctx) ho v).answer h.settled.here

/-- A union of settled options is settled beside them. -/
theorem Settled.union {I : Session → Prop} {pool : Schema Value → Prop}
    (h : Settled host σ I pool) {t u : Schema Value} (ht : pool t) (hkind : u.kind = t.kind)
    {schemas : List (Schema Value)} (hform : u.form = .union schemas)
    (hchecks : u.checks = []) (hschemas : ∀ o ∈ schemas, pool o) :
    Settled host σ I fun s => s = u ∨ pool s where
  here := h.here
  bookkeeping := h.bookkeeping
  kinds := h.kinds
  parts s hs o ho := by
    rcases hs with rfl | hs
    · rw [hform] at ho
      exact .inr (hschemas o ho)
    · exact .inr (h.parts s hs o ho)
  functions s hs fn hfn := by
    rcases hs with rfl | hs
    · simp [Schema.functions, hform, hchecks, Form.calls?] at hfn
    · exact h.functions s hs fn hfn
  evaluators s hs fn hfn := by
    rcases hs with rfl | hs
    · exact h.evaluators t ht fn (hkind ▸ hfn)
    · exact h.evaluators s hs fn hfn
  defaults s hs d hd := by
    rcases hs with rfl | hs
    · rw [hform] at hd
      cases hd
    · exact h.defaults s hs d hd
  lazies s hs getter name hlazy := by
    rcases hs with rfl | hs
    · rw [hform] at hlazy
      cases hlazy
    · exact h.lazies s hs getter name hlazy
  resolved s hs getter name t hlazy ht := by
    rcases hs with rfl | hs
    · rw [hform] at hlazy
      cases hlazy
    · exact .inr (h.resolved s hs getter name t hlazy ht)
  wording s hs inner fallback hcatch := by
    rcases hs with rfl | hs
    · rw [hform] at hcatch
      cases hcatch
    · exact h.wording s hs inner fallback hcatch

theorem Schema.depth_eq (s : Schema Value) : s.depth = Schema.depthForm s.form + 1 := by
  cases s
  rfl

section

variable {d options error : Value} {s u : Schema Value} {schemas : List (Schema Value)}
  {table : List (Value × Nat)} {v : Value} {data : Entries} {fuel budget : Nat}

/-- What a discriminated union comes to is what the option comes to that its table picks. -/
theorem discriminated_meaning (hbudget : budget = fuel + 1)
    (hkind : σ.kinds.evaluator? s.kind = .ok (.builtin .evaluateNode))
    (hform : s.form = .discriminatedUnion schemas d table) (hchecks : s.checks = [])
    (hd : d.isHashable = true) (hdata : v.entries? = some data) :
    meaning host σ ctx thorough budget s v =
      match pickOption schemas table ((data.find? d).getD .missing) with
      | some o => meaning host σ ctx thorough fuel o v
      | none => .ok ⟨v, [⟨[d], .null, (data.find? d).getD .missing, .schema s,
          .invalidUnion [] (.str "No matching discriminator") d⟩]⟩ := by
  rw [hbudget, meaning_of_form hkind (by simp [Schema.allChecks, hform, hchecks, Form.checkTag?])]
  simp only [Meaning.form, hform, Meaning.discriminated, hdata, hashable, hd, if_true, Run.answer,
    Run.exec_pure, bind, Except.bind]
  rfl

theorem union_meaning (hbudget : budget = fuel + 1)
    (hkind : σ.kinds.evaluator? u.kind = .ok (.builtin .evaluateNode))
    (hform : u.form = .union schemas) (hchecks : u.checks = []) :
    meaning host σ ctx thorough budget u v = do
      return unionResult u v
        (← Meaning.options (meaning host σ ctx thorough fuel) thorough v schemas) := by
  rw [hbudget, meaning_of_form hkind (by simp [Schema.allChecks, hform, hchecks, Form.checkTag?])]
  simp only [Meaning.form, hform]

/-- The table picks the option at the place of an entry that is the same as the tag. -/
theorem Tabulates.picks_entry (htable : Tabulates d schemas table) (hv : v.wellFormed = true)
    (hdata : v.entries? = some data) {e : Value × Nat} (he : e ∈ table)
    (hsame : ((data.find? d).getD .missing).same e.1 = true) {o : Schema Value}
    (ho : schemas[e.2]? = some o) :
    pickOption schemas table ((data.find? d).getD .missing) = some o := by
  rw [pickOption, htable.apart.find? (Value.wellFormed_found hv hdata d) he hsame]
  exact ho

/-- The table picks every option that offers the tag. -/
theorem Tabulates.picks_offering (htable : Tabulates d schemas table) (hv : v.wellFormed = true)
    (hdata : v.entries? = some data) {o : Schema Value} (ho : o ∈ schemas)
    (hsame : ∀ values, o.Offers d values → ∃ x ∈ values,
      ((data.find? d).getD .missing).same x = true) :
    pickOption schemas table ((data.find? d).getD .missing) = some o := by
  obtain ⟨i, hi⟩ := List.mem_iff_getElem?.1 ho
  obtain ⟨values, hoffers, hvalues⟩ := htable.offered i o hi
  obtain ⟨x, hx, hsame⟩ := hsame values hoffers
  exact htable.picks_entry hv hdata (hvalues x hx) hsame hi

end

/-- What a discriminated union without checks of its own makes of a mapping. -/
structure Discriminates (host : Host) (σ : Session) (ctx : Context) (s u : Schema Value)
    (schemas : List (Schema Value)) (table : List (Value × Nat)) (tag v : Value) : Prop where
  /-- It comes to what the picked option comes to. -/
  picked : ∀ o, pickOption schemas table tag = some o →
    (safeParse host (ctx.mayWait false) s v).answer σ
      = (safeParse host (ctx.mayWait false) o v).answer σ
  /-- Nothing is accepted if no option is picked. -/
  unpicked : pickOption schemas table tag = none →
    ∀ w, (safeParse host (ctx.mayWait false) s v).answer σ ≠ .ok (.accepted w)
  /-- The union accepts the same if no other option than the picked one accepts anything. -/
  union : (∀ o ∈ schemas, ∀ w,
      (safeParse host (ctx.mayWait false) o v).answer σ = .ok (.accepted w) →
        pickOption schemas table tag = some o) →
    ∀ w, (safeParse host (ctx.mayWait false) s v).answer σ = .ok (.accepted w) ↔
      (safeParse host (ctx.mayWait false) u v).answer σ = .ok (.accepted w)

/-- A discriminated union without checks of its own and the union of its options read a mapping by
the option that the table picks, provided that no option raises a fault. -/
theorem discriminates {d options error error' : Value} {s u : Schema Value}
    {τ τ' : Session} (hs : (discriminatedUnion d options { error := error }).answer τ = .ok s)
    (hu : (Construct.union options { error := error' }).answer τ' = .ok u)
    (hpure : s.IsPure host σ)
    (hkind : σ.kinds.evaluator? (.str "union") = .ok (.builtin .evaluateNode))
    (hd : d.isHashable = true) {v : Value} {data : Entries} (hdata : v.entries? = some data)
    (hquiet : ∀ o ∈ s.form.parts, ∃ outcome,
      (evaluate host (ctx.mayWait false) o.budget o v).answer σ = .ok outcome) :
    ∃ table, Tabulates d s.form.parts table ∧
      s.form = .discriminatedUnion s.form.parts d table ∧
      Discriminates host σ ctx s u s.form.parts table ((data.find? d).getD .missing) v := by
  obtain ⟨schemas, table, hschemas, htable, hform, hskind, hschecks⟩ :=
    discriminatedUnion_ok (Prod.ext hs rfl)
  obtain ⟨schemas', hschemas', hform', hukind, huchecks⟩ := union_ok (Prod.ext hu rfl)
  obtain rfl : schemas' = schemas :=
    List.map_injective_iff.2 (fun _ _ h => by injection h)
      (Option.some.inj (hschemas'.symm.trans hschemas))
  have hparts : s.form.parts = schemas' := by rw [hform]; rfl
  rw [hparts] at hquiet ⊢
  have hsettled := hpure.settled
  have hreaches (o : Schema Value) (ho : o ∈ schemas') : s.Reaches host σ o :=
    .part .self (hparts ▸ ho)
  -- Inside the union the options are read with at least the levels that they have on their own.
  obtain ⟨n, hn⟩ : ∃ n, s.budget = n + 1 := ⟨s.depth + 1999, rfl⟩
  have hbudget : u.budget = n + 1 := by
    rw [← hn, Schema.budget, Schema.budget, Schema.depth_eq, Schema.depth_eq, hform, hform']
    rfl
  have hoption (o : Schema Value) (ho : o ∈ schemas') : ∃ r,
      meaning host σ ctx false o.budget o v = .ok r ∧ meaning host σ ctx false n o v = .ok r := by
    obtain ⟨outcome, houtcome⟩ := hquiet o ho
    obtain ⟨r, hr⟩ := hsettled.meaning_ok (hreaches o ho) houtcome
    have hle : o.budget ≤ n := by
      have hdepth : o.depth < s.depth := Schema.depth_part_lt (hparts ▸ ho)
      unfold Schema.budget at hn ⊢
      omega
    exact ⟨r, hr, meaning_mono hle hr⟩
  have hparse (o : Schema Value) (ho : s.Reaches host σ o) := hpure.parse_answer ctx ho v
  have hparseu : (safeParse host (ctx.mayWait false) u v).answer σ
      = Meaning.parsed host σ ctx false u v :=
    (safeParse_gives (hsettled.union .self (hukind.trans hskind.symm) hform' huchecks hreaches)
      (hpure.words_fixed ctx) (.inl rfl) v).answer hsettled.here
  refine ⟨table, htable, hform, fun o hpick => ?_, fun hpick w => ?_, fun hpicks w => ?_⟩
  · obtain ⟨r, hr, hr'⟩ := hoption o (pickOption_mem hpick)
    rw [hparse s .self, hparse o (hreaches o (pickOption_mem hpick)), Meaning.parsed,
      Meaning.parsed, discriminated_meaning hn (hskind ▸ hkind) hform hschecks hd hdata, hpick, hr]
    exact congrArg (· >>= fun r => (conclude host ctx r).answer σ) hr'
  · rw [hparse s .self, Ne, parsed_accepted,
      discriminated_meaning hn (hskind ▸ hkind) hform hschecks hd hdata, hpick]
    rintro ⟨⟩
  · have hpicks (o : Schema Value) (ho : o ∈ schemas') (w : Value)
        (hw : meaning host σ ctx false n o v = .ok (.ok w)) :
        pickOption schemas' table ((data.find? d).getD .missing) = some o := by
      obtain ⟨r, hr, hr'⟩ := hoption o ho
      refine hpicks o ho w ?_
      rw [hparse o (hreaches o ho), parsed_accepted, hr, ← hr', hw]
    rw [hparse s .self, hparseu, parsed_accepted, parsed_accepted,
      discriminated_meaning hn (hskind ▸ hkind) hform hschecks hd hdata,
      union_meaning hbudget (hukind ▸ hkind) hform' huchecks,
      union_accepts hpicks (fun o ho => pickOption_mem ho) fun o ho =>
        (hoption o ho).imp fun _ h => h.2]
    cases pickOption schemas' table ((data.find? d).getD .missing) with
    | none => simp
    | some o => simp

/-- A discriminated union without checks of its own accepts a mapping with an output exactly if
the union of its options does, and it comes to what the option comes to that its table picks,
provided that no option raises a fault. -/
theorem discriminated_as_union {d options error error' : Value} {s u : Schema Value}
    {τ τ' : Session} (hs : (discriminatedUnion d options { error := error }).answer τ = .ok s)
    (hu : (Construct.union options { error := error' }).answer τ' = .ok u)
    (hpure : s.IsPure host σ)
    (hkind : σ.kinds.evaluator? (.str "union") = .ok (.builtin .evaluateNode))
    (hd : d.isHashable = true) (hpicks : ∀ o ∈ s.form.parts, o.PicksBy σ d)
    {v : Value} (hv : v.wellFormed = true) {data : Entries} (hdata : v.entries? = some data)
    (hquiet : ∀ o ∈ s.form.parts, ∃ outcome,
      (evaluate host (ctx.mayWait false) o.budget o v).answer σ = .ok outcome) :
    (∀ w, (safeParse host (ctx.mayWait false) s v).answer σ = .ok (.accepted w) ↔
      (safeParse host (ctx.mayWait false) u v).answer σ = .ok (.accepted w)) ∧
    ∀ table e o, s.form = .discriminatedUnion s.form.parts d table → e ∈ table →
      ((data.find? d).getD .missing).same e.1 = true → s.form.parts[e.2]? = some o →
      (safeParse host (ctx.mayWait false) s v).answer σ
        = (safeParse host (ctx.mayWait false) o v).answer σ := by
  obtain ⟨table, htable, hform, hreads⟩ := discriminates hs hu hpure hkind hd hdata hquiet
  constructor
  · refine hreads.union fun o ho w hw => htable.picks_offering hv hdata ho fun values hoffers => ?_
    rw [hpure.parse_answer ctx (.part .self ho), parsed_accepted] at hw
    exact hoffers.same (hpicks o ho) hw hdata
  · intro table' e o hform' he hsame ho
    obtain ⟨-, -, rfl⟩ := Form.discriminatedUnion.inj (hform.symm.trans hform')
    exact hreads.picked o (htable.picks_entry hv hdata he hsame ho)

/-! ## Two options with a tag -/

namespace Picked

open Stock (hostThat)

/-- A synchronous function of the stock. -/
def supplied (name : String) (captured : List Value) : Value := .callable ⟨0, name, captured, false⟩

def tag (name : String) : Schema Value :=
  ⟨1, .str "literal", .literal [.str name], [], [], .null⟩

def anything : Schema Value := ⟨2, .str "any", .any, [], [], .null⟩

/-- Anything, and what the factory makes in place of an absent value. -/
def made (factory : Value) : Schema Value :=
  ⟨3, .str "default", .default anything factory, [], [], .null⟩

/-- Objects with a tag of their own and something made. -/
def option (factory : Value) (name : String) : Schema Value :=
  ⟨4, .str "object", .object [(.str "tag", tag name), (.str "x", made factory)] .strip none, [],
    [], .null⟩

def options (factory : Value) : List (Schema Value) := [option factory "a", option factory "b"]

/-- The two options picked by their tags. -/
def picking (factory : Value) : Schema Value :=
  ⟨0, .str "union",
    .discriminatedUnion (options factory) (.str "tag") [(.str "a", 0), (.str "b", 1)], [], [],
    .null⟩

/-- The two options tried in turn. -/
def trying (factory : Value) : Schema Value :=
  ⟨0, .str "union", .union (options factory), [], [], .null⟩

/-- The second option's tag alone. -/
def value : Value := .dict [(.str "tag", .str "b")]

theorem picking_made (factory : Value) : (discriminatedUnion (.str "tag")
    (.list ((options factory).map .schema)) {}).answer {} = .ok (picking factory) := rfl

theorem trying_made (factory : Value) : (Construct.union
    (.list ((options factory).map .schema)) {}).answer {} = .ok (trying factory) := rfl

variable {factory : Value}

theorem reached_cases {t : Schema Value} (h : (picking factory).Reaches (hostThat false) {} t) :
    t = picking factory ∨ (∃ name, t = option factory name) ∨ (∃ name, t = tag name) ∨
      t = made factory ∨ t = anything := by
  induction h with
  | self => exact .inl rfl
  | @part t u _ hu ih =>
    rcases ih with rfl | ⟨name, rfl⟩ | ⟨name, rfl⟩ | rfl | rfl
    · have hu : u ∈ [option factory "a", option factory "b"] := hu
      rcases List.mem_pair.1 hu with rfl | rfl
      · exact .inr (.inl ⟨"a", rfl⟩)
      · exact .inr (.inl ⟨"b", rfl⟩)
    · have hu : u ∈ [tag name, made factory] := hu
      rcases List.mem_pair.1 hu with rfl | rfl
      · exact .inr (.inr (.inl ⟨name, rfl⟩))
      · simp
    · cases hu
    · have hu : u = anything := List.mem_singleton.1 hu
      simp [hu]
    · cases hu
  | lazily _ hform _ ih => rcases ih with rfl | ⟨name, rfl⟩ | ⟨name, rfl⟩ | rfl | rfl <;> cases hform

/-- With a factory that does not count all functions of the schema are pure. -/
theorem picking_isPure {name : String} {captured : List Value} (hname : name ≠ "counter") :
    (picking (supplied name captured)).IsPure (hostThat false) {} where
  functions t ht fn hfn := by
    rcases reached_cases ht with rfl | ⟨tag, rfl⟩ | ⟨tag, rfl⟩ | rfl | rfl
    · cases hfn
    · cases hfn
    · cases hfn
    · rw [show fn = supplied name captured from List.mem_singleton.1 hfn]
      exact Stock.isPure hname {}
    · cases hfn
  evaluators t ht fn hfn := by
    rcases reached_cases ht with rfl | ⟨tag, rfl⟩ | ⟨tag, rfl⟩ | rfl | rfl <;> (cases hfn; trivial)
  providers f i τ _ := Stock.wording_exec f i {} τ
  defaults t ht d hd := by
    rcases reached_cases ht with rfl | ⟨tag, rfl⟩ | ⟨tag, rfl⟩ | rfl | rfl <;> cases hd
    rfl
  lazies t u getter name getter' name' ht _ hform := by
    rcases reached_cases ht with rfl | ⟨tag, rfl⟩ | ⟨tag, rfl⟩ | rfl | rfl <;> cases hform
  settings := Stock.host_settings
  prompt _ _ _ := rfl

theorem forall_options {property : Schema Value → Prop}
    (ha : property (option factory "a")) (hb : property (option factory "b")) :
    ∀ o ∈ options factory, property o := by
  intro o ho
  rcases List.mem_pair.1 ho with rfl | rfl
  · exact ha
  · exact hb

/-- The options are told apart by their tags. -/
theorem picking_picks (factory : Value) :
    ∀ o ∈ (picking factory).form.parts, o.PicksBy {} (.str "tag") := by
  have hpicks (name : String) : (option factory name).PicksBy {} (.str "tag") := by
    refine ⟨fun fn hfn => by cases hfn; rfl, ?_, fun _ _ _ h => nomatch h⟩
    rintro _ _ _ ⟨⟩ f hf htag
    rcases List.mem_pair.1 hf with rfl | rfl
    · exact ⟨rfl, fun fn hfn => by cases hfn; rfl, fun _ _ h => nomatch h⟩
    · cases htag
  exact forall_options (hpicks "a") (hpicks "b")

end Picked

open Picked Stock in
/-- With a factory that does not count the option is picked, and tried with the same outcome. -/
theorem discriminated_as_union_tagged :
    (∀ w, (safeParse (hostThat false) (Context.mayWait {} false) (picking (supplied "value" [.int 7]))
        value).answer {} = .ok (.accepted w) ↔
      (safeParse (hostThat false) (Context.mayWait {} false) (trying (supplied "value" [.int 7]))
        value).answer {} = .ok (.accepted w)) ∧
      (safeParse (hostThat false) (Context.mayWait {} false) (picking (supplied "value" [.int 7]))
        value).answer {} = .ok (.accepted (.dict [(.str "tag", .str "b"), (.str "x", .int 7)])) :=
  ⟨(discriminated_as_union (picking_made _) (trying_made _) (picking_isPure (by decide)) rfl rfl
    (picking_picks _) rfl rfl (forall_options ⟨_, rfl⟩ ⟨_, rfl⟩)).1, rfl⟩

open Picked Stock in
/-- With a factory that counts: the union reads its first option in vain, and that counts. -/
theorem discriminated_as_union_needs_pure_defaults :
    (discriminatedUnion (.str "tag") (.list ((options (supplied "counter" [])).map .schema))
        {}).answer {} = .ok (picking (supplied "counter" [])) ∧
      (Construct.union (.list ((options (supplied "counter" [])).map .schema)) {}).answer {}
        = .ok (trying (supplied "counter" [])) ∧
      (∀ o ∈ options (supplied "counter" []), ∃ outcome, (evaluate (hostThat false)
        (Context.mayWait {} false) o.budget o value).answer {} = .ok outcome) ∧
      (safeParse (hostThat false) (Context.mayWait {} false) (picking (supplied "counter" []))
        value).answer {} = .ok (.accepted (.dict [(.str "tag", .str "b"), (.str "x", .int 0)])) ∧
      (safeParse (hostThat false) (Context.mayWait {} false) (trying (supplied "counter" []))
        value).answer {} = .ok (.accepted (.dict [(.str "tag", .str "b"), (.str "x", .int 1)])) :=
  ⟨rfl, rfl, forall_options ⟨_, rfl⟩ ⟨_, rfl⟩, rfl, rfl⟩

end Assay
