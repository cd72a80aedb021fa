import Assay.Proofs.Absence
import Assay.Proofs.Intersecting

/-!
# Objects of other shapes

Objects of other shapes are derived from objects without checks only (`withShape_ok`), since checks
may rely on the keys.

To make keys optional leaves the schemas as they are that declare that they accept an absent value,
and wraps all others (`MadeOptional`). An issue at such a key that is absent comes from a schema that
declares it and does not accept it (`optional_keys_reported`), of which there are some
(`optional_key_missing`).

To merge an object with a second one takes over the schemas of the second one, also under keys that
both have (`exists_of_merge`). So all that the merged object accepts has accepted positions in the
second one, if that allows unknown keys (`merge_accepts_right`). What is not taken over are its
checks, for which it may still reject the value (`merge_drops_checks`).
-/

namespace Assay

open Run Structure

variable {host : Host} {σ τ : Session} {ctx : Context}

/-- The schemas of a shape are parts of the object. -/
theorem Schema.mem_parts_of_shape {s : Schema Value} {shape : List (Value × Schema Value)}
    {policy : UnknownKeys} {catchall : Option (Schema Value)}
    (hform : s.form = .object shape policy catchall) : ∀ f ∈ shape, f.2 ∈ s.form.parts := by
  rw [hform]
  exact fun f hf => List.mem_append_left _ (List.mem_map_of_mem hf)

/-! ## Keys made optional -/

/-- What a schema becomes when its key is made optional: it stays if it declares that it accepts an
absent value, and is wrapped otherwise. -/
inductive MadeOptional (host : Host) (σ : Session) (c : Schema Value) : Schema Value → Prop
  | kept : c.DeclaresAbsent host σ → MadeOptional host σ c c
  | wrapped {t : Schema Value} : t.form = .optional c → t.kind = .str "optional" → t.checks = [] →
      MadeOptional host σ c t

/-- An entry of a shape in which some keys are made optional. -/
structure PartOptional (host : Host) (σ : Session) (targets : List Value)
    (e f : Value × Schema Value) : Prop where
  key : f.1 = e.1
  target : e.1.isIn targets = true → MadeOptional host σ e.2 f.2
  other : e.1.isIn targets = false → f.2 = e.2

theorem partialShape_ok {targets : List Value} {shape : List (Value × Schema Value)}
    (hfree : ∀ e ∈ shape, e.2.IsFunctionFree host σ) {es : List (Value × Value)} {τ' : Session}
    (h : (Derive.partialShape host targets shape).exec τ = (.ok es, τ')) :
    ∃ shape', .dict es = Derive.shapeValue shape' ∧
      List.Forall₂ (PartOptional host σ targets) shape shape' := by
  induction shape generalizing τ es with
  | nil =>
    cases h
    exact ⟨[], rfl, .nil⟩
  | cons e shape ih =>
    obtain ⟨k, c⟩ := e
    obtain ⟨hc, hfree⟩ := List.forall_mem_cons.1 hfree
    obtain ⟨t, ρ, ht, h⟩ := bind_exec_ok.1 h
    obtain ⟨rest, ρ', hrest, h⟩ := bind_exec_ok.1 h
    cases h
    obtain ⟨shape', hshape', hparts⟩ := ih hfree hrest
    cases hshape'
    refine ⟨(k, t) :: shape', rfl, .cons ⟨rfl, fun htarget => ?_, fun hother => ?_⟩ hparts⟩
    · rw [if_pos htarget] at ht
      obtain ⟨b, ρ, hb, ht⟩ := bind_exec_ok.1 ht
      have hbudget : c.depth < c.budget := Nat.lt_add_of_pos_right (by decide)
      obtain ⟨b', hgives, hdeclares⟩ := hc.acceptsAbsent_gives (I := fun _ => True) hbudget
      have hanswer := (hgives τ trivial).2
      rw [hb] at hanswer
      cases hanswer
      cases b with
      | true =>
        cases ht
        exact .kept (hdeclares.1 rfl)
      | false =>
        have hmade : (Construct.make (.optional c) {}).exec _ = (.ok t, _) := ht
        obtain ⟨hform, hkind, hchecks⟩ := make_ok rfl hmade
        exact .wrapped hform hkind hchecks
    · rw [if_neg (by rw [hother]; exact Bool.false_ne_true)] at ht
      cases ht
      rfl

/-- Which keys of a shape are made optional: those that are named, or all. -/
def optionalKeys (shape : List (Value × Schema Value)) (keys : List Value) : List Value :=
  if keys.isEmpty then Derive.keysOf shape else keys

/-- An object with keys made optional has the policy and the catchall of the one without checks that
it is derived from, and the entries of its shape with these keys made optional. -/
theorem partial_ok {o p : Schema Value} {shape : List (Value × Schema Value)}
    {policy : UnknownKeys} {catchall : Option (Schema Value)}
    (hform : o.form = .object shape policy catchall)
    (hfree : ∀ e ∈ shape, e.2.IsFunctionFree host σ) {keys : List Value}
    (h : (deriveByName host (.schema o) "partial" keys []).answer τ = .ok (.schema p)) :
    ∃ shape', p.form = .object shape' policy catchall ∧ p.kind = .str "object" ∧ p.checks = [] ∧
      List.Forall₂ (PartOptional host σ (optionalKeys shape keys)) shape shape' := by
  have hmethod : method? host o "partial" = Method.object? host shape policy catchall "partial" := by
    rw [method?, hform]
    rfl
  obtain ⟨a, τ', ha, h⟩ := deriveByName_ok hmethod h
  obtain rfl : ⟨[], keys, []⟩ = a := by
    cases keys <;> exact Except.ok.inj ha
  obtain ⟨_, ρ, -, h⟩ := bind_exec_ok.1 h
  obtain ⟨es, ρ', hes, h⟩ := bind_exec_ok.1 h
  obtain ⟨shape', hshape', hparts⟩ := partialShape_ok hfree hes
  rw [hshape'] at h
  obtain ⟨-, hp, hkind, hchecks⟩ := withShape_ok h
  exact ⟨shape', hp, hkind, hchecks, hparts⟩

/-! ## Where issues come from -/

/-- What an object reports below its own place is an issue of a position. -/
theorem issue_of_object {s : Schema Value} {policy : UnknownKeys} {hasCatchall : Bool} {v : Value}
    {unknown : Entries} {placed : List Placed} {i : Issue Value}
    (hi : i ∈ (object s ctx policy hasCatchall v unknown placed).issues) (hpath : i.path ≠ []) :
    i ∈ issuesUnder placed := by
  unfold object at hi
  dsimp only at hi
  split at hi
  · exact hi
  · split at hi
    · exact hi
    · cases policy with
      | strip | passthrough => exact hi
      | strict =>
        rcases List.mem_append.1 hi with hi | hi
        · exact hi
        · rw [List.mem_singleton.1 hi] at hpath
          exact absurd rfl hpath

/-- An issue of a position is found below its key. -/
theorem issue_of_place {recur : Schema Value → Value → Except Fault Result}
    {places : List (Value × Schema Value × Value)} {rs : List Result}
    (hrs : Meaning.items recur ctx (places.map (·.2)) = .ok rs) {i : Issue Value}
    (hi : i ∈ issuesUnder (placedAt (places.map (·.1)) rs)) :
    ∃ place ∈ places, ∃ r, recur place.2.1 place.2.2 = .ok r ∧ r.valid = false ∧
      i.path.head? = some place.1 := by
  obtain ⟨q, hq, hi⟩ := List.mem_flatMap.1 hi
  obtain ⟨j, hj, rfl⟩ := List.mem_map.1 hi
  obtain ⟨place, hplace, hkey, hmem⟩ := mem_zip_keys hq
  obtain ⟨qs, ⟨more, hqs⟩, hread⟩ := Meaning.items_prefix hrs
  have hzip : (place.2, q.2) ∈ qs.zip rs := by
    have hsame : (qs ++ more).zip (rs ++ []) = qs.zip rs ++ more.zip [] :=
      List.zip_append hread.length_eq
    rw [← hqs, ← List.append_nil rs, hsame, List.zip_nil_right, List.append_nil] at hmem
    exact hmem
  refine ⟨place, hplace, q.2, (List.forall₂_iff_zip.1 hread).2 hzip, ?_, ?_⟩
  · exact Result.invalid_iff.2 (List.ne_nil_of_mem hj)
  · exact congrArg some hkey

/-- The issues of a parse that must not wait are in the places of the issues that the schema means. -/
theorem Settled.rejected_issues {I : Session → Prop} {pool : Schema Value → Prop} {s : Schema Value}
    (h : Settled host σ I pool) (hs : pool s) {v : Value} {issues : List (Issue Value)}
    (hrejected : (safeParse host (ctx.mayWait false) s v).answer σ = .ok (.rejected issues)) :
    ∃ r, Meaning.alone host σ ctx s v = .ok r ∧ ∀ i ∈ issues, ∃ j ∈ r.issues, j.path = i.path := by
  obtain ⟨o, ρ, ho, hconcluded⟩ := bind_exec_ok.1 (Prod.ext hrejected rfl)
  obtain ⟨r, rfl⟩ := evaluate_ready ho
  obtain ⟨r', ρ', hr', hconcluded⟩ := bind_exec_ok.1 hconcluded
  cases hr'
  have hanswer : (evaluate host (ctx.mayWait false) s.budget s v).answer σ =
      (Meaning.alone host σ ctx s v).map .ready :=
    (evaluate_promptly h s.budget hs v).answer h.here
  rw [answer, ho] at hanswer
  obtain ⟨-, hwords⟩ := conclude_answer (congrArg Prod.fst hconcluded)
  refine ⟨r, ?_, fun i hi => ?_⟩
  · cases halone : Meaning.alone host σ ctx s v with
    | error e =>
      rw [halone] at hanswer
      cases hanswer
    | ok q =>
      rw [halone] at hanswer
      cases hanswer
      rfl
  · rw [unwordedAll_eq_map, unwordedAll_eq_map] at hwords
    have hmem := List.mem_map_of_mem (f := Issue.unworded (ctx.mayWait false).reportInput) hi
    obtain ⟨j, hj, hsame⟩ := List.mem_map.1 (hwords ▸ hmem)
    exact ⟨j, hj, (Issue.path_unworded _ j).symm.trans
      ((congrArg Issue.path hsame).trans (Issue.path_unworded _ i))⟩

/-! ## Absent keys -/

theorem exists_of_mem_right {α β : Type} {R : α → β → Prop} {xs : List α} {ys : List β}
    (h : List.Forall₂ R xs ys) {y : β} (hy : y ∈ ys) : ∃ x ∈ xs, R x y := by
  obtain ⟨i, hi, rfl⟩ := List.mem_iff_getElem.1 hy
  have hlt : i < xs.length := h.length_eq ▸ hi
  exact ⟨xs[i], List.getElem_mem hlt, h.get hlt hi⟩

/-- A wrapped schema accepts an absent value. -/
theorem MadeOptional.absent {c t : Schema Value} (h : MadeOptional host σ c t)
    (hfree : t.IsFunctionFree host σ)
    {r : Result} (hr : Meaning.alone host σ ctx t .missing = .ok r) (hinvalid : r.valid = false) :
    c.DeclaresAbsent host σ ∧ ¬ ∃ w, c.AcceptsAs host σ ctx .missing w := by
  cases h with
  | kept hdeclares =>
    refine ⟨hdeclares, fun ⟨w, hw⟩ => ?_⟩
    cases (hfree.acceptsAs_iff.1 hw).symm.trans hr
    cases hinvalid
  | wrapped hform hkind hchecks =>
    have hformal : t.IsFormal σ := .of_form (by rw [hform]; rfl) hchecks hfree.self.own
    have hmissing : Meaning.alone host σ ctx t .missing = .ok (.ok .missing) :=
      hformal.alone fun n _ => by simp only [Meaning.form, hform]
    cases hmissing.symm.trans hr
    cases hinvalid

/-- An entry of a shape without functions has none when it is made optional. -/
theorem PartOptional.isFunctionFree {targets : List Value} {e f : Value × Schema Value}
    (h : PartOptional host σ targets e f) (he : e.2.IsFunctionFree host σ)
    (hoptional : σ.kinds.evaluator? (.str "optional") = .ok (.builtin .evaluateNode)) :
    f.2.IsFunctionFree host σ := by
  obtain ⟨k, c⟩ := e
  obtain ⟨l, t⟩ := f
  cases htarget : k.isIn targets with
  | false =>
    obtain rfl : t = c := h.other htarget
    exact he
  | true =>
    have hmade : MadeOptional host σ c t := h.target htarget
    cases hmade with
    | kept _ => exact he
    | wrapped hform hkind hchecks =>
      have hsilent : t.functions = [] := by
        simp [Schema.functions, hform, hchecks, Form.calls?]
      refine .of_parts (.of_silent (by rw [hkind, hoptional]) hsilent) ?_
      simpa [hform, Form.parts] using he

/-- The position of an absent key is one of the shape. -/
theorem objectItems_absent {shape : List (Value × Schema Value)} {catchall : Option (Schema Value)}
    {data : Entries} {place : Value × Schema Value × Value}
    (h : place ∈ objectItems shape catchall data) (habsent : data.find? place.1 = none) :
    ∃ f ∈ shape, place = (f.1, f.2, .missing) := by
  have hnamed : place ∈ shape.map (fun f => (f.1, f.2, (data.find? f.1).getD .missing)) := by
    unfold objectItems at h
    cases catchall with
    | none => exact h
    | some c =>
      rcases List.mem_append.1 h with h | h
      · exact h
      · -- A key that the shape does not name is a key of the value.
        obtain ⟨e, he, rfl⟩ := List.mem_map.1 h
        have hfound := Entries.find?_eq_none.1 habsent e (List.mem_filter.1 he).1
        rw [Value.isFound_refl] at hfound
        cases hfound
  obtain ⟨f, hf, rfl⟩ := List.mem_map.1 hnamed
  exact ⟨f, hf, by rw [habsent, Option.getD_none]⟩

/-- An object with keys made optional has no functions if the one that it is derived from has none. -/
theorem partial_isFunctionFree {o p : Schema Value} {shape shape' : List (Value × Schema Value)}
    {policy : UnknownKeys} {catchall : Option (Schema Value)}
    (hform : o.form = .object shape policy catchall)
    (hfree : ∀ c ∈ o.form.parts, c.IsFunctionFree host σ)
    (hobject : σ.kinds.evaluator? (.str "object") = .ok (.builtin .evaluateNode))
    (hoptional : σ.kinds.evaluator? (.str "optional") = .ok (.builtin .evaluateNode))
    (hpform : p.form = .object shape' policy catchall) (hpkind : p.kind = .str "object")
    (hpchecks : p.checks = []) {targets : List Value}
    (hmade : List.Forall₂ (PartOptional host σ targets) shape shape') :
    p.IsFunctionFree host σ := by
  have hsilent : p.functions = [] := by
    simp [Schema.functions, hpform, hpchecks, Form.calls?]
  refine .of_parts (.of_silent (by rw [hpkind, hobject]) hsilent) ?_
  rw [hpform]
  intro t ht
  rcases List.mem_append.1 ht with ht | ht
  · obtain ⟨f, hf, rfl⟩ := List.mem_map.1 ht
    obtain ⟨e, he, hef⟩ := exists_of_mem_right hmade hf
    exact hef.isFunctionFree (hfree e.2 (Schema.mem_parts_of_shape hform e he)) hoptional
  · refine hfree t ?_
    rw [hform]
    exact List.mem_append_right _ ht

/-- Of an object with keys made optional, an issue at one of these that is absent comes from a schema
that declares that it accepts an absent value and does not. So where the schemas of these keys accept
what they declare to, no such issue is reported. -/
theorem optional_keys_reported {o p : Schema Value} {shape : List (Value × Schema Value)}
    {policy : UnknownKeys} {catchall : Option (Schema Value)}
    (hform : o.form = .object shape policy catchall)
    (hfree : ∀ c ∈ o.form.parts, c.IsFunctionFree host σ)
    (hobject : σ.kinds.evaluator? (.str "object") = .ok (.builtin .evaluateNode))
    (hoptional : σ.kinds.evaluator? (.str "optional") = .ok (.builtin .evaluateNode))
    {keys : List Value}
    (hp : (deriveByName host (.schema o) "partial" keys []).answer τ = .ok (.schema p))
    {v : Value} {data : Entries} (hdata : v.entries? = some data) {issues : List (Issue Value)}
    (hissues : (safeParse host (ctx.mayWait false) p v).answer σ = .ok (.rejected issues)) :
    ∀ i ∈ issues, ∀ k, i.path.head? = some k → k.isIn (optionalKeys shape keys) = true →
      data.find? k = none →
      ∃ c, (k, c) ∈ shape ∧ c.DeclaresAbsent host σ ∧ ¬ ∃ w, c.AcceptsAs host σ ctx .missing w := by
  have hchildren : ∀ e ∈ shape, e.2.IsFunctionFree host σ := fun e he =>
    hfree e.2 (Schema.mem_parts_of_shape hform e he)
  obtain ⟨shape', hpform, hpkind, hpchecks, hmade⟩ := partial_ok hform hchildren hp
  have hpfree : p.IsFunctionFree host σ :=
    partial_isFunctionFree hform hfree hobject hoptional hpform hpkind hpchecks hmade
  have hformal : p.IsFormal σ := .of_form (by rw [hpform]; rfl) hpchecks hpfree.self.own
  -- What the object comes to is put together from its positions.
  obtain ⟨r, hr, hplaces⟩ := hpfree.settled.rejected_issues .self hissues
  rw [hformal.alone fun n hn => by
    rw [show n = p.depth + 1999 from (Nat.succ.inj hn).symm]] at hr
  simp only [Meaning.form, hpform, Meaning.object, hdata] at hr
  obtain ⟨rs, hrs, hr⟩ := bind_eq_ok.1 hr
  cases hr
  intro i hi k hk htarget habsent
  obtain ⟨j, hj, hpath⟩ := hplaces i hi
  have hne : j.path ≠ [] := by
    rintro hnil
    rw [← hpath, hnil] at hk
    cases hk
  obtain ⟨place, hplace, q, hq, hinvalid, hkey⟩ := issue_of_place hrs (issue_of_object hj hne)
  obtain rfl : place.1 = k := Option.some.inj (hkey.symm.trans (hpath ▸ hk))
  obtain ⟨f, hf, rfl⟩ := objectItems_absent hplace habsent
  obtain ⟨e, he, hef⟩ := exists_of_mem_right hmade hf
  have hpart : f.2 ∈ p.form.parts := Schema.mem_parts_of_shape hpform f hf
  have hdepth := Schema.depth_part_lt hpart
  have hchild := hpfree.part hpart
  dsimp only at hq htarget
  rw [hchild.meaning_alone (by omega)] at hq
  rw [hef.key] at htarget
  exact ⟨e.2, hef.key ▸ he, (hef.target htarget).absent hchild hq hinvalid⟩

namespace Trailing

def names : Schema Value :=
  ⟨0, .str "object", .object [(.str "a", text), (.str "b", text)] .strip none, [], [], .null⟩

/-- A text that is made optional. -/
def wrapped (id : Nat) : Schema Value := ⟨id, .str "optional", .optional text, [], [], .null⟩

def partialNames : Schema Value :=
  ⟨numberIn 0 2, .str "object", .object [(.str "a", wrapped (numberIn 0 0)),
    (.str "b", wrapped (numberIn 0 1))] .strip none, [], [], .null⟩

/-- A text that may be absent, read again as a text that must be there. -/
def twice : Schema Value := ⟨4, .str "pipe", .pipe perhaps text, [], [], .null⟩

def nameTwice : Schema Value :=
  ⟨0, .str "object", .object [(.str "a", twice)] .strip none, [], [], .null⟩

end Trailing

open Trailing Stock in
/-- A number is no text, which is reported of its key but not of the other one, which is absent. -/
theorem optional_keys_reported_names :
    (deriveByName (hostThat false) (.schema names) "partial" [] []).answer {}
        = .ok (.schema partialNames) ∧
      ∃ issues, (safeParse (hostThat false) (Context.mayWait {} false) partialNames
          (.dict [(.str "b", .int 1)])).answer {} = .ok (.rejected issues) ∧
        ∀ i ∈ issues, i.path.head? ≠ some (.str "a") := by
  have hform : names.form = .object [(.str "a", text), (.str "b", text)] .strip none := rfl
  have hfree : ∀ c ∈ names.form.parts, c.IsFunctionFree (hostThat false) {} :=
    List.forall_mem_cons.2 ⟨text_isFunctionFree, List.forall_mem_singleton.2 text_isFunctionFree⟩
  have hpartial : (deriveByName (hostThat false) (.schema names) "partial" [] []).answer {}
      = .ok (.schema partialNames) := rfl
  have hdata : Value.entries? (.dict [(.str "b", .int 1)]) = some [(.str "b", .int 1)] := rfl
  obtain ⟨issues, hissues⟩ : ∃ issues, (safeParse (hostThat false) (Context.mayWait {} false)
      partialNames (.dict [(.str "b", .int 1)])).answer {} = .ok (.rejected issues) := ⟨_, rfl⟩
  refine ⟨hpartial, issues, hissues, fun i hi ha => ?_⟩
  obtain ⟨c, hc, hdeclares, -⟩ :=
    optional_keys_reported hform hfree rfl rfl hpartial hdata hissues i hi (.str "a") ha rfl rfl
  -- A text does not declare that it may be absent.
  obtain rfl : c = text := by
    rcases List.mem_pair.1 hc with h | h <;> exact congrArg Prod.snd h
  cases hdeclares

open Trailing Stock in
/-- A text that is read twice declares that it may be absent, since the first reading does, so it is
not wrapped: the second reading reports the absent key. -/
theorem optional_key_missing :
    ∃ p issues, (deriveByName (hostThat false) (.schema nameTwice) "partial" [] []).answer {}
        = .ok (.schema p) ∧
      (safeParse (hostThat false) (Context.mayWait {} false) p (.dict [])).answer {}
        = .ok (.rejected issues) ∧
      ∃ i ∈ issues, i.path.head? = some (.str "a") :=
  ⟨_, _, rfl, rfl, _, List.mem_singleton_self _, rfl⟩

/-! ## Merged shapes -/

/-- In a merged shape each schema of the second one stands under its key, or under one of the first
shape that is equal. -/
theorem exists_of_merge {first second shape : List (Value × Schema Value)}
    (hapart : ApartKeys second) (hformed : ∀ e ∈ first ++ second, e.1.wellFormed = true)
    (hshape : .dict (Entries.ofList ((first ++ second).map fun e => (e.1, Value.schema e.2)))
      = Derive.shapeValue shape) {f : Value × Schema Value} (hf : f ∈ second) :
    ∃ e ∈ shape, e.2 = f.2 ∧ e.1.wellFormed = true ∧ e.1.isFound f.1 = true := by
  have hentries : ∀ e ∈ (first ++ second).map fun e => (e.1, Value.schema e.2),
      e.1.wellFormed = true := List.forall_mem_map.2 hformed
  have hdistinct : Entries.Distinct (second.map fun e => (e.1, Value.schema e.2)) :=
    List.pairwise_map.2 (List.pairwise_map.1 hapart)
  have hkeys := Entries.ofList_wellFormed hentries
  rw [List.map_append] at hentries hkeys hshape
  have hfound := Entries.find?_ofList_append hdistinct hentries f.1
  rw [Entries.find?_of_mem hdistinct (List.mem_map_of_mem hf), Option.some_or,
    Value.dict.inj hshape] at hfound
  rw [Value.dict.inj hshape] at hkeys
  obtain ⟨i, hi, hfound⟩ := Entries.exists_of_find? hfound
  obtain ⟨e, he, hei⟩ := List.mem_map.1 hi
  obtain ⟨rfl, hchild⟩ := Prod.mk.inj hei
  exact ⟨e, he, Value.schema.inj hchild, hkeys _ hi, hfound⟩

/-- What the schema comes to with some number of levels it comes to on its own. -/
def Schema.WithinLevels (host : Host) (σ : Session) (ctx : Context) (s : Schema Value) (v : Value) :
    Prop :=
  ∀ n r, meaning host σ ctx false n s v = .ok r → Meaning.alone host σ ctx s v = .ok r

/-- Schemas that are not lazy need no more levels than they are deep. -/
theorem Settled.withinLevels {I : Session → Prop} {pool : Schema Value → Prop} {s : Schema Value}
    (h : Settled host σ I pool) (hs : pool s)
    (hlazies : ∀ t, s.Reaches host σ t → ∀ getter name, t.form ≠ .lazy getter name) (v : Value) :
    s.WithinLevels host σ ctx v := by
  intro n r hr
  have hbudget : s.depth < s.budget := Nat.lt_add_of_pos_right (by decide)
  rw [Meaning.alone, h.meaning_levels hs hlazies hbudget
    (Nat.lt_of_lt_of_le hbudget (Nat.le_max_right n s.budget))]
  exact meaning_mono (Nat.le_max_left n s.budget) hr

section

variable {I : Session → Prop} {pool : Schema Value → Prop} {s : Schema Value}
  {shape : List (Value × Schema Value)} {policy : UnknownKeys} {catchall : Option (Schema Value)}

/-- Positions come to one output each. -/
theorem Meaning.Accepts.unique {recur : Schema Value → Value → Except Fault Result}
    {ps : List (Schema Value × Value)} {ws ws' : List Value} (h : Meaning.Accepts recur ps ws)
    (h' : Meaning.Accepts recur ps ws') : ws = ws' := by
  refine List.right_unique_forall₂' (fun p w w' hw hw' => ?_) h h'
  cases Except.ok.inj (hw.symm.trans hw')
  rfl

/-- An object accepts mappings whose positions are accepted, if its checks accept the output and
there are no keys that it does not allow. -/
theorem Settled.object_acceptsAs (h : Settled host σ I pool) (hs : pool s)
    (hown : σ.kinds.evaluator? s.kind = .ok (.builtin .evaluateNode))
    (hform : s.form = .object shape policy catchall) {v w : Value} :
    s.AcceptsAs host σ ctx v w ↔ ∃ data ws, v.entries? = some data ∧
      Meaning.Accepts (meaning host σ ctx false (s.depth + 1999))
        ((objectItems shape catchall data).map (·.2)) ws ∧
      (policy = .strict → catchall = none → unknownKeys shape data = []) ∧
      Meaning.checksFrom host σ ctx s.checks
        (.ok (.dict (Meaning.objectOutput shape policy catchall data ws))) = .ok (.ok w) := by
  rw [h.acceptsAs_iff hs, alone_accepts hown, Schema.allChecks_of_untagged (by rw [hform]; rfl)]
  simp only [Meaning.form, hform, Meaning.object_accepts]
  constructor
  · rintro ⟨_, ⟨data, ws, hdata, hws, hstrict, rfl⟩, hchecks⟩
    exact ⟨data, ws, hdata, hws, hstrict, hchecks⟩
  · rintro ⟨data, ws, hdata, hws, hstrict, hchecks⟩
    exact ⟨_, ⟨data, ws, hdata, hws, hstrict, rfl⟩, hchecks⟩

end

/-- The positions of the second shape are accepted as part of a schema that has them if those of the
merged shape are accepted. -/
theorem accepts_of_merge {b : Schema Value} {first second shape : List (Value × Schema Value)}
    (hparts : ∀ f ∈ second, f.2 ∈ b.form.parts) (hapart : ApartKeys second)
    (hformed : ∀ e ∈ first ++ second, e.1.wellFormed = true)
    (hshape : .dict (Entries.ofList ((first ++ second).map fun e => (e.1, Value.schema e.2)))
      = Derive.shapeValue shape)
    {data : Entries}
    (hlevels : ∀ p ∈ objectItems second none data, p.2.1.WithinLevels host σ ctx p.2.2)
    {levels : Nat} {ws : List Value} (hws : Meaning.Accepts (meaning host σ ctx false levels)
      ((objectItems shape none data).map (·.2)) ws) :
    ∃ ws', Meaning.Accepts (meaning host σ ctx false (b.depth + 1999))
      ((objectItems second none data).map (·.2)) ws' := by
  refine exists_forall₂_iff.2 (List.forall_mem_map.2 fun p hp => ?_)
  have halone := hlevels p hp
  obtain ⟨f, hf, rfl⟩ := List.mem_map.1 hp
  obtain ⟨⟨i, c⟩, he, rfl, hkey, hfound⟩ := exists_of_merge hapart hformed hshape hf
  have hplace : (i, f.2, (data.find? i).getD .missing) ∈ objectItems shape none data :=
    objectItems_named he
  rw [Entries.find?_congr hkey hfound] at hplace
  obtain ⟨w, -, hw⟩ := hws.of_mem (List.mem_map_of_mem hplace)
  have hbudget : f.2.budget ≤ b.depth + 1999 :=
    Nat.add_le_add_right (Schema.depth_part_lt (hparts f hf)) 1999
  exact ⟨w, meaning_mono hbudget (halone _ _ hw)⟩

/-- Where an object was merged with a second one that allows unknown keys, what the merged object
accepts is accepted by the second one without its checks. The second one itself accepts it exactly
if its checks accept what comes of it, for the merged object does not have these. -/
theorem merge_accepts_right {a b merged : Schema Value} {first second : List (Value × Schema Value)}
    {policy policy' : UnknownKeys} {catchall : Option (Schema Value)}
    (ha : a.form = .object first policy catchall) (hb : b.form = .object second policy' none)
    (hallows : policy' ≠ .strict) (hapart : ApartKeys second)
    (hformed : ∀ e ∈ first ++ second, e.1.wellFormed = true)
    (hmerge : (deriveByName host (.schema a) "merge" [.schema b] []).answer τ
      = .ok (.schema merged))
    (hown : σ.kinds.evaluator? b.kind = .ok (.builtin .evaluateNode))
    (hobject : σ.kinds.evaluator? (.str "object") = .ok (.builtin .evaluateNode))
    (hpure : b.IsPure host σ) (hmergedpure : merged.IsPure host σ)
    {v : Value} {data : Entries} (hdata : v.entries? = some data)
    (hlevels : ∀ p ∈ objectItems second none data, p.2.1.WithinLevels host σ ctx p.2.2)
    {x : Value} (haccepted : merged.AcceptsAs host σ ctx v x) :
    ∃ u, Schema.AcceptsAs host σ ctx { b with checks := [] } v u ∧
      ∀ w, b.AcceptsAs host σ ctx v w ↔
        Meaning.checksFrom host σ ctx b.checks (.ok u) = .ok (.ok w) := by
  obtain ⟨shape, hshape, -, hform, hkind, -⟩ := merge_shapes ha hb hmerge
  have hmergedown : σ.kinds.evaluator? merged.kind = .ok (.builtin .evaluateNode) := by
    rw [hkind, hobject]
  obtain ⟨data', outputs, hdata', houtputs, -, -⟩ :=
    (hmergedpure.settled.object_acceptsAs .self hmergedown hform).1 haccepted
  cases hdata.symm.trans hdata'
  obtain ⟨ws, hws⟩ :=
    accepts_of_merge (Schema.mem_parts_of_shape hb) hapart hformed hshape hlevels houtputs
  have hbare : Schema.IsPure host σ { b with checks := [] } :=
    hpure.of_parts hown (by simp [Schema.functions, hb, Form.calls?])
      (by simp [hb, Form.default?]) (by simp [hb, Form.calls?]) fun _ hu => .part .self hu
  have hdepth : Schema.depth { b with checks := [] } = b.depth := by
    cases b
    rfl
  refine ⟨.dict (Meaning.objectOutput second policy' none data ws), ?_, fun w => ?_⟩
  · rw [hbare.settled.object_acceptsAs .self hown hb, hdepth]
    exact ⟨data, ws, hdata, hws, fun hstrict => absurd hstrict hallows, rfl⟩
  · rw [hpure.settled.object_acceptsAs .self hown hb]
    constructor
    · rintro ⟨data', ws', hdata', hws', -, hchecks⟩
      cases hdata.symm.trans hdata'
      obtain rfl := hws.unique hws'
      exact hchecks
    · exact fun hchecks => ⟨data, ws, hdata, hws, fun hstrict => absurd hstrict hallows, hchecks⟩

namespace Overriding

open Samples Trailing Stock

/-- Mappings with an amount of which a predicate answers the same whatever it is. -/
def judged (answer : Bool) : Schema Value :=
  let predicate : Value := .callable ⟨0, "const", [.bool answer], false⟩
  let check : Check Value := ⟨5, .refinement predicate .null .null, .null, .null⟩
  ⟨4, .str "object", .object [(.str "a", amount)] .strip none, [], [.check check], .null⟩

/-- Names merged with an amount. -/
def amountAndName : Schema Value :=
  ⟨numberIn 0 0, .str "object", .object [(.str "a", amount), (.str "b", text)] .strip none, [], [],
    .null⟩

def entry : Entries := [(.str "a", .int 1), (.str "b", .str "x")]

theorem judged_isPure (answer : Bool) : (judged answer).IsPure (hostThat false) {} := by
  have hreached : ∀ t, (judged answer).Reaches (hostThat false) {} t →
      t = judged answer ∨ t = amount := by
    intro t ht
    induction ht with
    | self => exact .inl rfl
    | part _ hu ih =>
      rcases ih with rfl | rfl
      · exact .inr (List.mem_singleton.1 hu)
      · cases hu
    | lazily _ hform _ ih => rcases ih with rfl | rfl <;> cases hform
  refine isPure_of_checks fun t ht => ?_
  rcases hreached t ht with rfl | rfl
  · refine ⟨rfl, List.forall_mem_singleton.2 (isPure ?_ {}), fun fn hfn => by cases hfn; rfl⟩
    exact show "const" ≠ "counter" by decide
  · exact ⟨rfl, nofun, fun fn hfn => by cases hfn; rfl⟩

theorem amountAndName_isPure : amountAndName.IsPure (hostThat false) {} := by
  have hreached : ∀ t, amountAndName.Reaches (hostThat false) {} t →
      t = amountAndName ∨ t = amount ∨ t = text := by
    intro t ht
    induction ht with
    | self => exact .inl rfl
    | part _ hu ih =>
      rcases ih with rfl | rfl | rfl
      · exact .inr (List.mem_pair.1 hu)
      · cases hu
      · cases hu
    | lazily _ hform _ ih => rcases ih with rfl | rfl | rfl <;> cases hform
  refine isPure_of_silent fun t ht => ?_
  rcases hreached t ht with rfl | rfl | rfl <;> exact ⟨rfl, fun fn hfn => by cases hfn; rfl⟩

theorem amount_isFunctionFree : amount.IsFunctionFree (hostThat false) {} :=
  .of_parts (.of_silent rfl rfl) nofun

end Overriding

open Overriding Samples Trailing Stock in
/-- A predicate that accepts everything is asked about the amount alone. -/
theorem merge_accepts_right_amount :
    (deriveByName (hostThat false) (.schema names) "merge" [.schema (judged true)] []).answer {}
        = .ok (.schema amountAndName) ∧
      amountAndName.AcceptsAs (hostThat false) {} {} (.dict entry) (.dict entry) ∧
      (judged true).AcceptsAs (hostThat false) {} {} (.dict entry) (.dict [(.str "a", .int 1)]) := by
  have hnames : names.form = .object [(.str "a", text), (.str "b", text)] .strip none := rfl
  have hjudged : (judged true).form = .object [(.str "a", amount)] .strip none := rfl
  have hapart : ApartKeys [(.str "a", amount)] := List.pairwise_singleton _ _
  have hformed : ∀ e ∈ [(Value.str "a", text), (.str "b", text)] ++ [(.str "a", amount)],
      e.1.wellFormed = true := by simp [Value.wellFormed]
  have hmerge : (deriveByName (hostThat false) (.schema names) "merge" [.schema (judged true)]
      []).answer {} = .ok (.schema amountAndName) := rfl
  have hlevels : ∀ p ∈ objectItems [(.str "a", amount)] none entry,
      p.2.1.WithinLevels (hostThat false) {} {} p.2.2 :=
    List.forall_mem_singleton.2 (amount_isFunctionFree.settled.withinLevels .self
      amount_isFunctionFree.lazies _)
  have haccepted : amountAndName.AcceptsAs (hostThat false) {} {} (.dict entry) (.dict entry) := rfl
  obtain ⟨u, hu, haccepts⟩ := merge_accepts_right hnames hjudged nofun hapart hformed hmerge rfl rfl
    (judged_isPure true) amountAndName_isPure rfl hlevels haccepted
  cases hu
  exact ⟨hmerge, haccepted, (haccepts _).2 rfl⟩

open Overriding Samples Stock in
/-- An object merged with amounts that a predicate rejects has no predicate, so it accepts them. -/
theorem merge_drops_checks :
    ∃ merged, (deriveByName (hostThat false) (.schema (bare "object" (.object [] .strip none)))
        "merge" [.schema (judged false)] []).answer {} = .ok (.schema merged) ∧
      (∃ w, merged.AcceptsAs (hostThat false) {} {} (.dict [(.str "a", .int 1)]) w) ∧
      ¬ ∃ w, (judged false).AcceptsAs (hostThat false) {} {} (.dict [(.str "a", .int 1)]) w := by
  refine ⟨_, rfl, ⟨_, rfl⟩, ?_⟩
  rintro ⟨w, hw⟩
  cases hw

end Assay
