import Assay.Proofs.Containers
import Assay.Proofs.Numbering
import Assay.Proofs.Sources
import Mathlib.Data.List.Nodup

/-!
# Data-only schemas

A schema is data-only when plain data can say all about it (`Schema.IsData`): it calls no function
but the library's own replacements of texts, its messages are texts, and its listed values, defaults
and bounds are plain (`Value.isJson`). Its evaluation asks a session nothing but which evaluators
there are, so data-only schemas are settled (`Schema.IsData.settled`).
-/

namespace Assay

/-! ## Plain values -/

namespace Value

mutual

/-- A description shows the value as it is: nulls, truth values, numbers, texts, lists of such
values, and mappings of different texts to such values. -/
def isJson : Value → Bool
  | null | bool _ | int _ | float _ | nan _ | str _ => true
  | list vs => allJson vs
  | dict es => entriesJson es && decide (es.filterMap fun e => e.1.str?).Nodup
  | _ => false
termination_by structural x => x

/-- All values of a list are plain. -/
def allJson : List Value → Bool
  | [] => true
  | v :: vs => isJson v && allJson vs
termination_by structural x => x

/-- All keys are texts and all their values plain. -/
def entriesJson : List (Value × Value) → Bool
  | [] => true
  | (k, v) :: es => k.str?.isSome && isJson v && entriesJson es
termination_by structural x => x

end

end Value

/-- Entries whose keys are some of different texts. -/
theorem Entries.distinct_of_sublist {es : Entries} {names : List String}
    (h : (es.map (·.1)).Sublist (names.map .str)) (hnames : names.Nodup) : es.Distinct := by
  have hapart : (names.map Value.str).Pairwise fun k l => k.isFound l = false := by
    rw [List.pairwise_map]
    exact hnames.imp fun hne => beq_eq_false_iff_ne.2 hne
  have hkeys := hapart.sublist h
  rw [List.pairwise_map] at hkeys
  exact hkeys

/-- Entries whose keys are different texts. -/
theorem Entries.distinct_of_texts {es : Entries} {names : List String}
    (h : es.map (·.1) = names.map .str) (hnames : names.Nodup) : es.Distinct :=
  distinct_of_sublist (h ▸ .refl _) hnames

namespace Value

theorem str?_eq_some {v : Value} {s : String} : v.str? = some s ↔ v = .str s := by
  cases v <;> simp [str?]

theorem keys_of_entriesJson {es : Entries} (h : entriesJson es = true) :
    es.map (·.1) = (es.filterMap fun e => e.1.str?).map .str := by
  induction es with
  | nil => rfl
  | cons e es ih =>
    simp only [entriesJson, Bool.and_eq_true] at h
    obtain ⟨⟨hkey, -⟩, hes⟩ := h
    obtain ⟨s, hs⟩ := Option.isSome_iff_exists.1 hkey
    rw [List.map_cons, List.filterMap_cons, hs, ih hes, str?_eq_some.1 hs, List.map_cons]

theorem isJson_list {vs : List Value} :
    (list vs).isJson = true ↔ ∀ v ∈ vs, v.isJson = true := by
  show allJson vs = true ↔ _
  induction vs with
  | nil => exact ⟨fun _ => nofun, fun _ => rfl⟩
  | cons v vs ih => rw [List.forall_mem_cons, ← ih, allJson, Bool.and_eq_true]

theorem entriesJson_iff {es : Entries} : entriesJson es = true ↔
    ∀ f ∈ es, (∃ name, f.1 = .str name) ∧ f.2.isJson = true := by
  induction es with
  | nil => exact ⟨fun _ => nofun, fun _ => rfl⟩
  | cons f es ih =>
    rw [List.forall_mem_cons, ← ih]
    simp only [entriesJson, Bool.and_eq_true, Option.isSome_iff_exists, str?_eq_some]

/-- A mapping is plain when its keys are different texts and its values are plain. -/
theorem isJson_dict {es : Entries} : (dict es).isJson = true ↔
    (∀ f ∈ es, (∃ name, f.1 = .str name) ∧ f.2.isJson = true) ∧ (es.map (·.1)).Nodup := by
  have hinjective : Function.Injective (str : String → Value) := fun _ _ h => str.inj h
  rw [isJson, Bool.and_eq_true, decide_eq_true_iff, ← entriesJson_iff]
  refine and_congr_right fun hes => ?_
  rw [keys_of_entriesJson hes, List.nodup_map_iff hinjective]

/-- Some of the entries of a plain mapping. -/
theorem isJson_filter {es : Entries} (h : (dict es).isJson = true) (p : Value × Value → Bool) :
    (dict (es.filter p)).isJson = true := by
  obtain ⟨hes, hnames⟩ := isJson_dict.1 h
  exact isJson_dict.2 ⟨fun f hf => hes f (List.mem_of_mem_filter hf),
    hnames.sublist (List.filter_sublist.map _)⟩

/-- Another plain value under a name. -/
theorem isJson_replace {before after : Entries} {k v v' : Value}
    (h : (dict (before ++ (k, v) :: after)).isJson = true) (hv' : v'.isJson = true) :
    (dict (before ++ (k, v') :: after)).isJson = true := by
  obtain ⟨hes, hnames⟩ := isJson_dict.1 h
  refine isJson_dict.2 ⟨fun f hf => ?_, by simpa using hnames⟩
  obtain hf | hf := List.mem_append.1 hf
  · exact hes f (List.mem_append_left _ hf)
  · obtain rfl | hf := List.mem_cons.1 hf
    · exact ⟨(hes (k, v) (by simp)).1, hv'⟩
    · exact hes f (List.mem_append_right _ (List.mem_cons_of_mem _ hf))

theorem distinct_of_isJson {es : Entries} (h : isJson (.dict es) = true) : es.Distinct := by
  rw [isJson, Bool.and_eq_true] at h
  exact Entries.distinct_of_texts (keys_of_entriesJson h.1) (of_decide_eq_true h.2)

mutual

/-- The plain form of a plain value is the value. -/
theorem plain_of_isJson : (v : Value) → isJson v = true → plain v = v
  | .null, _ | .bool _, _ | .int _, _ | .float _, _ | .nan _, _ | .str _, _ => rfl
  | .list vs, h => congrArg Value.list (plainAll_of_allJson vs h)
  | .dict es, h => by
    have hes := plainEntries_of_entriesJson es (Bool.and_eq_true_iff.1 h).1
    rw [plain, hes, Entries.ofList_of_distinct (distinct_of_isJson h)]
termination_by structural x => x

theorem plainAll_of_allJson : (vs : List Value) → allJson vs = true → plainAll vs = vs
  | [], _ => rfl
  | v :: vs, h => by
    obtain ⟨hv, hvs⟩ := Bool.and_eq_true_iff.1 h
    rw [plainAll, plain_of_isJson v hv, plainAll_of_allJson vs hvs]
termination_by structural x => x

theorem plainEntries_of_entriesJson : (es : List (Value × Value)) → entriesJson es = true →
    plainEntries es = es
  | [], _ => rfl
  | (k, v) :: es, h => by
    simp only [entriesJson, Bool.and_eq_true] at h
    obtain ⟨⟨hkey, hv⟩, hes⟩ := h
    obtain ⟨s, hs⟩ := Option.isSome_iff_exists.1 hkey
    obtain rfl := str?_eq_some.1 hs
    rw [plainEntries, plain_of_isJson v hv, plainEntries_of_entriesJson es hes]
    rfl
termination_by structural x => x

end

theorem isCallable_of_isJson {v : Value} (h : v.isJson = true) : v.isCallable = false := by
  cases v <;> first | rfl | cases h

/-- A description shows every plain value but null. -/
theorem isShown_of_isJson {v : Value} (h : v.isJson = true) (hnull : v ≠ .null) :
    v.isShown = true := by
  cases v <;> first | exact absurd rfl hnull | rfl | cases h

theorem copyDefault_of_isJson {v : Value} (h : v.isJson = true) : copyDefault v = pure v := by
  cases v <;> first | rfl | cases h

/-- A switch of a schema is off, which is null, or on. -/
def IsSwitch (v : Value) : Prop := v = .null ∨ v = .bool true

/-- A message is a text, if there is one. -/
def IsMessage (v : Value) : Prop := v = .null ∨ ∃ s, v = .str s

theorem IsSwitch.isJson {v : Value} (h : v.IsSwitch) : v.isJson = true := by
  obtain rfl | rfl := h <;> rfl

theorem IsMessage.isJson {v : Value} (h : v.IsMessage) : v.isJson = true := by
  obtain rfl | ⟨s, rfl⟩ := h <;> rfl

end Value

/-! ## Checks -/

/-- A rule that plain data can say all about. -/
inductive Rule.IsData : Rule Value → Prop
  | atLeast (measure : Measure) (n : Nat) : IsData (.atLeast measure n)
  | atMost (measure : Measure) (n : Nat) : IsData (.atMost measure n)
  | exactly (measure : Measure) (n : Nat) : IsData (.exactly measure n)
  | greaterThan {bound : Value} (h : (∃ n, bound = .int n) ∨ ∃ x, bound = .float x)
      (inclusive : Bool) : IsData (.greaterThan bound (.bool inclusive))
  | lessThan {bound : Value} (h : (∃ n, bound = .int n) ∨ ∃ x, bound = .float x)
      (inclusive : Bool) : IsData (.lessThan bound (.bool inclusive))
  | multipleOf {divisor : Value} (h : divisor.isNumber = true)
      (hpositive : (Value.int 0).before? false divisor = some true) : IsData (.multipleOf divisor)
  | regex {pattern : Pattern} {text : String} (h : Pattern.ofText text = .ok pattern) :
      IsData (.regex pattern text (.str "regex"))
  | lowercase : IsData .lowercase
  | uppercase : IsData .uppercase
  | startsWith (text : String) : IsData (.startsWith (.str text))
  | endsWith (text : String) : IsData (.endsWith (.str text))
  | includes (text : String) : IsData (.includes (.str text))

/-- The library's own replacements, by name. -/
inductive Rule.IsNamed : Rule Value → Prop
  | trim : IsNamed (.overwrite (.builtin .trim) (.str "trim"))
  | toLower : IsNamed (.overwrite (.builtin .toLower) (.str "to_lower"))
  | toUpper : IsNamed (.overwrite (.builtin .toUpper) (.str "to_upper"))

/-- What plain data can say all about in a list of checks: rules, the library's own replacements,
and formats that convert nothing and have no checks of their own. -/
inductive Value.IsDataCheck : Value → Prop
  | rule {id : Nat} {rule : Rule Value} {error : Value} (abort : Bool) :
      rule.IsData → error.IsMessage → IsDataCheck (.check ⟨id, rule, error, .bool abort⟩)
  | named {id : Nat} {rule : Rule Value} : rule.IsNamed →
      IsDataCheck (.check ⟨id, rule, .null, .bool false⟩)
  | format {id : Nat} (f : StringFormat) {error : Value} (abort : Bool) : error.IsMessage →
      IsDataCheck (.schema ⟨id, .str "string", .format f .null (.bool abort), [], [], error⟩)
  | integer {id : Nat} {error : Value} (abort : Bool) : error.IsMessage →
      IsDataCheck (.schema ⟨id, .str "number", .integer .null (.bool abort), [], [], error⟩)

/-! ## Schemas -/

/-- Plain data can say all about a form, apart from its parts. -/
def Form.IsData : Form Value (Schema Value) → Prop
  | .string coerce | .number coerce | .boolean coerce | .date coerce => coerce.IsSwitch
  | .format _ coerce abort => coerce = .null ∧ ∃ b, abort = .bool b
  | .integer coerce abort => coerce.IsSwitch ∧ ∃ b, abort = .bool b
  | .literal values => values ≠ [] ∧ Value.allJson values = true
  | .enumeration entries cls => cls = none ∧ entries ≠ [] ∧ (Value.dict entries).isJson = true
  | .object shape _ _ => ∃ names : List String, shape.map (·.1) = names.map .str ∧ names.Nodup
  | .union options => options ≠ []
  | .discriminatedUnion options d table => options ≠ [] ∧ (∃ name, d = .str name ∧ name ≠ "") ∧
      ∀ σ, (Construct.tableFrom d 0 options []).answer σ = .ok table
  | .default _ d | .prefault _ d | .catching _ d => d.isJson = true
  | .transform _ | .lazy .. | .custom .. | .generic => False
  | .null | .any | .unknown | .never | .array _ | .tuple .. | .record .. | .map .. | .set _
  | .intersection .. | .optional _ | .nullable _ | .readonly _ | .promise _ | .pipe .. => True

/-- Plain data can say all about a schema and its parts. -/
inductive Schema.IsData : Schema Value → Prop
  | intro {id : Nat} {tag : String} {form : Form Value (Schema Value)} {checks : List Value}
      {error : Value} : form.tag? = some tag → form.IsData → (∀ t ∈ form.parts, t.IsData) →
      (∀ c ∈ checks, c.IsDataCheck) → error.IsMessage →
      IsData ⟨id, .str tag, form, [], checks, error⟩

namespace Schema.IsData

variable {s : Schema Value}

theorem kind_eq (h : s.IsData) : ∃ tag, s.kind = .str tag ∧ s.form.tag? = some tag := by
  cases h with
  | intro htag => exact ⟨_, rfl, htag⟩

theorem form (h : s.IsData) : s.form.IsData := by
  cases h
  assumption

theorem parts (h : s.IsData) : ∀ t ∈ s.form.parts, t.IsData := by
  cases h
  assumption

theorem checks (h : s.IsData) : ∀ c ∈ s.checks, c.IsDataCheck := by
  cases h
  assumption

theorem error (h : s.IsData) : s.error.IsMessage := by
  cases h
  assumption

/-- What a data-only schema reaches is data-only. -/
theorem reached {host : Host} {σ : Session} (h : s.IsData) {t : Schema Value}
    (ht : s.Reaches host σ t) : t.IsData := by
  induction ht with
  | self => exact h
  | part _ hu ih => exact ih.parts _ hu
  | lazily _ hform _ ih =>
    have hdata := ih.form
    rw [hform] at hdata
    exact hdata.elim

end Schema.IsData

/-! ## Evaluation -/

/-- No other evaluators are registered for the kinds that the library itself evaluates. -/
def Session.HasOwnKinds (σ : Session) : Prop :=
  ∀ tag ∈ KindTable.knownKinds, ∀ fn,
    σ.kinds.evaluator? (.str tag) = .ok fn → fn = .builtin .evaluateNode

theorem Form.tag?_known {V S : Type} {form : Form V S} {tag : String} (h : form.tag? = some tag) :
    tag ∈ KindTable.knownKinds := by
  cases form <;> cases h <;> decide

section

variable {host : Host} {σ : Session} {I : Session → Prop} {s : Schema Value}

theorem Schema.IsData.own (h : s.IsData) (hσ : σ.HasOwnKinds) {fn : Value}
    (hfn : σ.kinds.evaluator? s.kind = .ok fn) : fn = .builtin .evaluateNode := by
  obtain ⟨tag, hkind, htag⟩ := h.kind_eq
  rw [hkind] at hfn
  exact hσ tag (Form.tag?_known htag) fn hfn

/-- Plain values are no functions. -/
theorem reliable_of_isJson {d : Value} (h : d.isJson = true) : host.Reliable I d := by
  refine ⟨fun call => ?_, fun call _ => ?_⟩
  · cases d <;> first | exact trivial | cases h
  · cases d <;> first | exact .throw | cases h

/-- The library's own functions ask no session. -/
theorem reliable_builtin (b : Builtin Value) : host.Reliable I (.builtin b) := by
  refine ⟨fun call => trivial, fun call _ => ?_⟩
  unfold Host.call Host.start
  simp only [bind_assoc, pure_bind]
  exact Run.Fixed.lift.bind fun _ => .pure

theorem Form.IsData.calls {form : Form Value (Schema Value)} (h : form.IsData) {fn : Value}
    (hfn : form.calls? = some fn) : fn.isJson = true := by
  cases form with
  | default _ d | prefault _ d | catching _ d =>
    cases hfn
    exact h
  | transform _ | lazy _ _ | custom _ _ => exact h.elim
  | _ => cases hfn

theorem Value.IsDataCheck.calls {c fn : Value} (h : c.IsDataCheck) (hfn : c.checkCalls? = some fn) :
    ∃ b, fn = .builtin b := by
  cases h with
  | rule _ hrule => cases hrule <;> cases hfn
  | named hrule => cases hrule <;> cases hfn <;> exact ⟨_, rfl⟩
  | format | integer => cases hfn

/-- Data-only schemas are settled for all sessions with the same settings. -/
theorem settled_isData (hσ : σ.HasOwnKinds) :
    Settled host σ (fun τ => τ.settings = σ.settings) Schema.IsData where
  here := rfl
  bookkeeping := bookkeeping_settings σ
  kinds _ hτ := Session.kinds_eq_of_settings hτ
  parts _ hs := hs.parts
  functions s hs fn hfn := by
    rcases List.mem_append.1 hfn with hfn | hfn
    · exact reliable_of_isJson (hs.form.calls (Option.mem_toList.1 hfn))
    · obtain ⟨c, hc, hfn⟩ := List.mem_filterMap.1 hfn
      obtain ⟨b, rfl⟩ := (hs.checks c hc).calls hfn
      exact reliable_builtin b
  evaluators s hs fn hfn := hs.own hσ hfn ▸ reliable_builtin _
  defaults s hs d hd := by
    have hjson : d.isJson = true := by
      have hform := hs.form
      cases hcase : s.form <;> rw [hcase] at hd hform <;> cases hd <;> exact hform
    unfold defaultValue
    rw [Value.isCallable_of_isJson hjson, Value.copyDefault_of_isJson hjson]
    exact .pure
  lazies s hs getter name hform := (hform ▸ hs.form : Form.IsData (.lazy getter name)).elim
  resolved s hs getter name t hform := (hform ▸ hs.form : Form.IsData (.lazy getter name)).elim
  wording s hs inner fallback hform hcallable := by
    have hjson : fallback.isJson = true := by
      have hdata := hs.form
      rwa [hform] at hdata
    rw [Value.isCallable_of_isJson hjson] at hcallable
    cases hcallable

/-- All issues of a data-only schema are found by itself and by its parts. -/
theorem Schema.IsData.isPlain (h : s.IsData) (hσ : σ.HasOwnKinds) : s.IsPlain host σ where
  evaluators t ht fn hfn := (h.reached ht).own hσ hfn
  checks t ht c hc fn hrule := by
    cases (h.reached ht).checks _ hc with
    | rule _ hdata => cases hdata <;> cases hrule
    | named hdata => cases hdata <;> cases hrule
  transforms t ht fn hform := by
    have hdata := (h.reached ht).form
    rw [hform] at hdata
    exact hdata.elim
  fallbacks t ht inner fallback hform := by
    have hdata := (h.reached ht).form
    rw [hform] at hdata
    exact Value.isCallable_of_isJson hdata

end

end Assay
