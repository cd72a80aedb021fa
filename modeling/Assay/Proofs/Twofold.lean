import Assay.Proofs.Building
import Assay.Proofs.Correspondence
import Assay.Proofs.Inlining
import Assay.Proofs.PlainData

/-!
# Building twice

Two operations that build something, started in sessions with the same kinds, answer in accord
(`Run.Twofold`). From the checks of one definition, built twice, come checks that differ in numbers
only (`OfDefinition.checksOf_twofold`).
-/

namespace Assay

open Run

/-! ## Two buildings -/

section

variable {α β γ δ : Type} {K : KindTable} {lenient : Prop}

/-- In sessions with the kinds `K` the operations answer in accord, and when they succeed they keep
the kinds. -/
def Run.Twofold (K : KindTable) (lenient : Prop) (Q : α → β → Prop) (x : Run α) (y : Run β) :
    Prop :=
  ∀ σ τ, σ.kinds = K → τ.kinds = K →
    Accord lenient (fun a b => Q a b ∧ (x.exec σ).2.kinds = K ∧ (y.exec τ).2.kinds = K)
      (x.answer σ) (y.answer τ)

/-- The operation asks nothing of a session, and its answer satisfies `P`. -/
def Run.Still (P : α → Prop) (x : Run α) : Prop := ∃ e, x = Run.lift e ∧ ∀ a, e = .ok a → P a

namespace Run.Still

variable {P : α → Prop}

theorem pure {a : α} (h : P a) : (Pure.pure a : Run α).Still P :=
  ⟨.ok a, rfl, fun _ hb => Except.ok.inj hb ▸ h⟩

theorem throw {e : Fault} : (MonadExcept.throw e : Run α).Still P := ⟨.error e, rfl, nofun⟩

theorem refuse {cause : DefinitionError} : (Run.refuse cause : Run α).Still P := throw

theorem ofOption {fault : Fault} {o : Option α} (h : ∀ a, o = some a → P a) :
    (Run.ofOption fault o).Still P := by
  cases o with
  | none => exact throw
  | some a => exact pure (h a rfl)

end Run.Still

namespace Run.Twofold

variable {Q Q' : α → β → Prop} {S : γ → δ → Prop} {x : Run α} {y : Run β}

theorem pure {a : α} {b : β} (h : Q a b) : Twofold K lenient Q (Pure.pure a) (Pure.pure b) :=
  fun _ _ hσ hτ => ⟨h, hσ, hτ⟩

theorem throw {e : Fault} : Twofold K lenient Q (MonadExcept.throw e) (MonadExcept.throw e) :=
  fun _ _ _ _ => .error

theorem refuse {c c' : DefinitionError} (h : lenient) :
    Twofold K lenient Q (Run.refuse c) (Run.refuse c') :=
  fun _ _ _ _ => .inl h

theorem still {P : α → Prop} {x : Run α} (h : x.Still P) :
    Twofold K lenient (fun a b => b = a ∧ P a) x x := by
  obtain ⟨e, rfl, he⟩ := h
  cases e with
  | ok a => exact pure ⟨rfl, he a rfl⟩
  | error e => exact throw

theorem freshRef : Twofold K lenient (fun _ _ => True) Run.freshRef Run.freshRef :=
  fun _ _ hσ hτ => ⟨trivial, hσ, hτ⟩

theorem logLine (level text level' text' : String) :
    Twofold K lenient (fun _ _ => True) (Run.logLine level text) (Run.logLine level' text') :=
  fun _ _ hσ hτ => ⟨trivial, hσ, hτ⟩

theorem bind {f : α → Run γ} {g : β → Run δ} (h : Twofold K lenient Q x y)
    (hfg : ∀ a b, Q a b → Twofold K lenient S (f a) (g b)) :
    Twofold K lenient S (x >>= f) (y >>= g) := by
  intro σ τ hσ hτ
  have hfirst := h σ τ hσ hτ
  unfold answer at hfirst ⊢
  rw [exec_bind, exec_bind]
  rcases hx : x.exec σ with ⟨e | a, σ'⟩ <;> rcases hy : y.exec τ with ⟨e' | b, τ'⟩ <;>
    rw [hx, hy] at hfirst
  · exact hfirst
  · exact .of_lenient hfirst nofun
  · exact .of_lenient hfirst fun _ _ _ hb => nomatch hb
  · exact hfg a b hfirst.1 σ' τ' hfirst.2.1 hfirst.2.2

/-- The same operation first, which asks nothing of a session. -/
theorem after {P : α → Prop} {z : Run α} {f : α → Run γ} {g : α → Run δ} (h : z.Still P)
    (hfg : ∀ a, P a → Twofold K lenient S (f a) (g a)) :
    Twofold K lenient S (z >>= f) (z >>= g) :=
  (still h).bind fun a _ ⟨hab, ha⟩ => hab ▸ hfg a ha

theorem map {f : α → γ} {g : β → δ} (h : Twofold K lenient Q x y)
    (hfg : ∀ a b, Q a b → S (f a) (g b)) : Twofold K lenient S (f <$> x) (g <$> y) := by
  rw [map_eq_pure_bind, map_eq_pure_bind]
  exact h.bind fun a b hab => pure (hfg a b hab)

theorem mono (h : Twofold K lenient Q x y) (hQ : ∀ a b, Q a b → Q' a b) :
    Twofold K lenient Q' x y :=
  fun σ τ hσ hτ => (h σ τ hσ hτ).imp fun a b ⟨hab, hkept⟩ => ⟨hQ a b hab, hkept⟩

theorem weaken (h : Twofold K False Q x y) : Twofold K lenient Q x y :=
  fun σ τ hσ hτ => (h σ τ hσ hτ).weaken

/-- What is known of either answer. -/
theorem and {P : α → Prop} {P' : β → Prop} (h : Twofold K lenient Q x y)
    (hx : ∀ σ a, x.answer σ = .ok a → P a) (hy : ∀ τ b, y.answer τ = .ok b → P' b) :
    Twofold K lenient (fun a b => Q a b ∧ P a ∧ P' b) x y := by
  intro σ τ hσ hτ
  have haccord := h σ τ hσ hτ
  have hPa := hx σ
  have hPb := hy τ
  generalize x.answer σ = ea at haccord hPa ⊢
  generalize y.answer τ = eb at haccord hPb ⊢
  cases ea <;> cases eb <;> first
    | exact ⟨⟨haccord.1, hPa _ rfl, hPb _ rfl⟩, haccord.2⟩
    | exact haccord

/-- A fault that is caught is an answer. -/
theorem attempt (hx : x.Builds) (hy : y.Builds) (h : Twofold K False Q x y) :
    Twofold K False (Accord False Q) (Run.attempt x) (Run.attempt y) := by
  intro σ τ hσ hτ
  refine ⟨(h σ τ hσ hτ).imp fun a b hab => hab.1, ?_, ?_⟩
  · obtain ⟨n, l, hframe⟩ := hx.frame σ
    rw [exec_attempt, hframe]
    exact hσ
  · obtain ⟨n, l, hframe⟩ := hy.frame τ
    rw [exec_attempt, hframe]
    exact hτ

/-- Operations that start by reading the kinds. -/
theorem reading {f : Session → Run α} {g : Session → Run β}
    (h : ∀ σ τ, σ.kinds = K → τ.kinds = K → Twofold K lenient Q (f σ) (g τ)) :
    Twofold K lenient Q (get >>= f) (get >>= g) :=
  fun σ τ hσ hτ => h σ τ hσ hτ σ τ hσ hτ

/-- Operations that only have to agree when both succeed. -/
theorem of_success (hlenient : lenient) (hx : x.Builds) (hy : y.Builds)
    (h : ∀ σ τ, σ.kinds = K → τ.kinds = K → ∀ a b, x.answer σ = .ok a → y.answer τ = .ok b →
      Q a b) : Twofold K lenient Q x y := by
  intro σ τ hσ hτ
  refine .of_lenient hlenient fun a b ha hb => ⟨h σ τ hσ hτ a b ha hb, ?_, ?_⟩
  · obtain ⟨n, l, hframe⟩ := hx.frame σ
    rw [hframe]
    exact hσ
  · obtain ⟨n, l, hframe⟩ := hy.frame τ
    rw [hframe]
    exact hτ

end Run.Twofold

end

/-! ## Plain definitions -/

namespace Value

variable {v : Value}

theorem isJson_get? {es : Entries} (h : (dict es).isJson = true) {name : String}
    (hv : es.get? name = some v) : v.isJson = true := by
  obtain ⟨f, hf, rfl⟩ := Option.map_eq_some_iff.1 hv
  exact ((isJson_dict.1 h).1 f (List.mem_of_find?_eq_some hf)).2

theorem isJson_field {es : Entries} (h : (dict es).isJson = true) (name : String) :
    (OfDefinition.field es name).isJson = true := by
  unfold OfDefinition.field
  cases hv : es.get? name with
  | none => rfl
  | some v => exact isJson_get? h hv

/-- What a plain value iterates over is plain: items, keys, or the characters of a text. -/
theorem isJson_iterate? (h : v.isJson = true) {ws : List Value} (hws : v.iterate? = some ws) :
    ∀ w ∈ ws, w.isJson = true := by
  cases v with
  | list vs =>
    cases hws
    exact isJson_list.1 h
  | dict es =>
    cases hws
    intro w hw
    obtain ⟨f, hf, rfl⟩ := List.mem_map.1 hw
    obtain ⟨name, hname⟩ := ((isJson_dict.1 h).1 f hf).1
    rw [hname]
    rfl
  | str s =>
    cases hws
    intro w hw
    obtain ⟨c, -, rfl⟩ := List.mem_map.1 hw
    rfl
  | _ => first | exact absurd h Bool.false_ne_true | cases hws

end Value

/-! ## Checks -/

/-- The values differ in numbers only. -/
def Value.Alike (v w : Value) : Prop := w.unnumbered = v.unnumbered

/-- The function that a rule of a definition calls is the library's own, if it is one at all, and
the rule reports no issues of others. -/
structure Rule.IsDefined (r : Rule Value) : Prop where
  own : r.isOwn = true
  calls : ∀ fn, r.function? = some fn → (∃ b, fn = .builtin b) ∨ fn.isJson = true

theorem Rule.IsDefined.of_none {r : Rule Value} (hown : r.isOwn = true) (h : r.function? = none) :
    r.IsDefined :=
  ⟨hown, fun fn hfn => by rw [h] at hfn; cases hfn⟩

/-- The rule of a check is defined, and its message is plain. -/
structure Value.IsDefinedCheck (c : Value) : Prop where
  rule : ∀ d, c = .check d → d.rule.IsDefined
  message : Resolution.HasMessage c

/-- Checks of one definition: they differ in numbers only. -/
structure Value.CheckTwins (c c' : Value) : Prop where
  alike : c.Alike c'
  left : c.IsDefinedCheck
  right : c'.IsDefinedCheck

/-- A format with a plain message. -/
theorem Value.CheckTwins.schema {s t : Schema Value} (h : t.unnumbered = s.unnumbered)
    (herror : s.error.isJson = true) : CheckTwins (.schema s) (.schema t) := by
  have herror' : t.error.isJson = true := by
    rw [← t.unnumbered_error, h, s.unnumbered_error]
    exact herror
  exact ⟨congrArg Value.schema h, ⟨nofun, Resolution.hasMessage_schema herror⟩,
    ⟨nofun, Resolution.hasMessage_schema herror'⟩⟩

namespace Construct

variable {K : KindTable} {lenient : Prop}

theorem hashable_still (v : Value) : (hashable v).Still fun w => w = v := by
  unfold hashable
  split
  · exact .pure rfl
  · exact .throw

theorem lengthBound_still {rule : Nat → Rule Value} (h : ∀ n, (rule n).IsDefined)
    (bound : Value) : (lengthBound rule bound).Still Rule.IsDefined := by
  unfold lengthBound
  split
  · split
    · exact .refuse
    · exact .pure (h _)
  · exact .refuse

theorem greaterThan_still (bound inclusive : Value) :
    (greaterThan bound inclusive).Still Rule.IsDefined := by
  unfold greaterThan
  split
  · exact .refuse
  · exact .refuse
  · exact .pure (.of_none rfl rfl)

theorem lessThan_still (bound inclusive : Value) :
    (lessThan bound inclusive).Still Rule.IsDefined := by
  unfold lessThan
  split
  · exact .refuse
  · exact .refuse
  · exact .pure (.of_none rfl rfl)

theorem multipleOf_still (divisor : Value) :
    (multipleOf divisor).Still Rule.IsDefined := by
  unfold multipleOf
  split
  · exact .pure (.of_none rfl rfl)
  · exact .refuse

theorem regex_still (pattern format : Value) :
    (regex pattern format).Still Rule.IsDefined := by
  unfold regex
  split
  · split
    · exact .pure (.of_none rfl rfl)
    · exact .throw
  · exact .throw

theorem overwrite_still (fn name : Value) :
    (overwrite fn name).Still fun r => fn.isJson = true → r.IsDefined := by
  have hnamed (b : Builtin Value) (name : Value) :
      (Rule.overwrite (.builtin b) name).IsDefined :=
    ⟨rfl, fun fn hfn => .inl ⟨b, (Option.some.inj hfn).symm⟩⟩
  unfold overwrite
  split
  · exact .pure fun _ => hnamed _ _
  · exact .pure fun _ => hnamed _ _
  · exact .pure fun _ => hnamed _ _
  · exact .refuse
  · exact .pure fun hjson => ⟨rfl, fun fn hfn => .inr (Option.some.inj hfn ▸ hjson)⟩

/-- Checks of one rule. -/
theorem check_twofold {rule : Rule Value} (hrule : rule.IsDefined) {error : Value}
    (herror : error.isJson = true) (abort : Value) : Twofold K lenient Value.CheckTwins
      (Value.check <$> check rule error abort) (Value.check <$> check rule error abort) := by
  refine Twofold.map (Q := fun c c' => ∃ id id',
    c = ⟨id, rule, error, abort⟩ ∧ c' = ⟨id', rule, error, abort⟩)
    (Twofold.freshRef.bind fun id id' _ => .pure ⟨id, id', rfl, rfl⟩) ?_
  rintro _ _ ⟨id, id', rfl, rfl⟩
  have hdefined (id : Nat) : (Value.check ⟨id, rule, error, abort⟩).IsDefinedCheck :=
    ⟨by rintro d ⟨⟩; exact hrule, Resolution.hasMessage_check herror⟩
  exact ⟨rfl, hdefined id, hdefined id'⟩

/-- Schemas of forms that are made alike but for their checks. -/
theorem make_twofold {form form' : Form Value (Schema Value)} (htag : form'.tag? = form.tag?)
    (hname : form'.className = form.className) {checks checks' error : Value}
    {extra : List (String × Value)} {cs cs' : List Value} (hcs : checks.iterate? = some cs)
    (hcs' : checks'.iterate? = some cs') :
    Twofold K lenient
      (fun s t => ∃ id id' kind extra', s = ⟨id, kind, form, extra', cs, error⟩ ∧
        t = ⟨id', kind, form', extra', cs', error⟩)
      (make form ⟨checks, error, extra⟩) (make form' ⟨checks', error, extra⟩) := by
  unfold make items
  rw [htag, hname]
  dsimp only
  rw [hcs, hcs', Run.ofOption, Run.ofOption, pure_bind, pure_bind]
  split
  · exact .throw
  · exact Twofold.freshRef.bind fun id id' _ => .pure ⟨id, id', _, _, rfl, rfl⟩

/-- Schemas of forms that are made without further fields. -/
theorem make_plain_twofold {form form' : Form Value (Schema Value)} (htag : form'.tag? = form.tag?)
    (hname : form'.className = form.className) (error : Value) :
    Twofold K lenient
      (fun s t => ∃ id id' tag, form.tag? = some tag ∧
        s = ⟨id, .str tag, form, [], [], error⟩ ∧ t = ⟨id', .str tag, form', [], [], error⟩)
      (make form ⟨.tuple [], error, []⟩) (make form' ⟨.tuple [], error, []⟩) := by
  unfold make items
  rw [htag, hname]
  dsimp only [List.lookup_nil, Option.filter_none, Option.none_or]
  rw [show (Value.tuple []).iterate? = some [] from rfl, Run.ofOption, pure_bind, pure_bind]
  cases form.tag? with
  | none => exact .throw
  | some tag => exact Twofold.freshRef.bind fun id id' _ => .pure ⟨id, id', tag, rfl, rfl, rfl⟩

/-- A format of a name. -/
theorem namedFormat_twofold (name abort error : Value) :
    Twofold K lenient
      (fun s t => ∃ f id id', s = ⟨id, .str "string", .format f .null abort, [], [], error⟩ ∧
        t = ⟨id', .str "string", .format f .null abort, [], [], error⟩)
      (namedFormat name abort ⟨.tuple [], error, []⟩)
      (namedFormat name abort ⟨.tuple [], error, []⟩) := by
  refine .after (hashable_still name) fun n _ => ?_
  split
  · next f _ =>
    refine (make_plain_twofold rfl rfl error).mono ?_
    rintro _ _ ⟨id, id', tag, htag, rfl, rfl⟩
    cases htag
    exact ⟨f, id, id', rfl, rfl⟩
  · exact .throw

end Construct

namespace OfDefinition

variable {K : KindTable} {lenient : Prop}

theorem required_still (d : Entries) (tag : Value) (name : String) :
    (required d tag name).Still fun _ => True := by
  unfold required
  split
  · exact .pure trivial
  · exact .refuse

theorem lengthRule_isDefined {tag : String} {rule : Nat → Rule Value} {bound : String}
    (h : lengthRule? tag = some (rule, bound)) (n : Nat) : (rule n).IsDefined := by
  unfold lengthRule? at h
  split at h <;> cases h <;> exact .of_none rfl rfl

theorem stringCheck_twofold (d : Entries) (tag : Value) {error : Value}
    (herror : error.isJson = true) (abort : Value) : Twofold K lenient Value.CheckTwins
      (stringCheck d tag error abort) (stringCheck d tag error abort) := by
  have hmake {rule : Rule Value} (hrule : rule.IsDefined) :
      Twofold K lenient Value.CheckTwins _ _ := Construct.check_twofold hrule herror abort
  unfold stringCheck
  dsimp only
  split
  · exact .after (required_still _ _ _) fun _ _ =>
      .after (Construct.regex_still _ _) fun _ hrule => hmake hrule
  · exact hmake (.of_none rfl rfl)
  · exact hmake (.of_none rfl rfl)
  · exact .after (required_still _ _ _) fun _ _ => hmake (.of_none rfl rfl)
  · exact .after (required_still _ _ _) fun _ _ => hmake (.of_none rfl rfl)
  · exact .after (required_still _ _ _) fun _ _ => hmake (.of_none rfl rfl)
  · refine (Construct.namedFormat_twofold _ _ _).bind ?_
    rintro _ _ ⟨f, id, id', rfl, rfl⟩
    exact .pure (.schema rfl herror)

theorem checkOfTag_twofold {d : Entries} (hd : (Value.dict d).isJson = true) (tag : String) :
    Twofold K lenient Value.CheckTwins (checkOfTag d tag) (checkOfTag d tag) := by
  have herror := Value.isJson_field hd "error"
  have hmake {rule : Rule Value} (hrule : rule.IsDefined) :
      Twofold K lenient Value.CheckTwins _ _ :=
    Construct.check_twofold hrule herror (flag d "abort")
  unfold checkOfTag
  dsimp only
  split
  · next hlength =>
      exact .after (required_still _ _ _) fun _ _ =>
        .after (Construct.lengthBound_still (lengthRule_isDefined hlength) _) fun _ hrule =>
          hmake hrule
  · exact .after (required_still _ _ _) fun _ _ =>
      .after (Construct.greaterThan_still _ _) fun _ hrule => hmake hrule
  · exact .after (required_still _ _ _) fun _ _ =>
      .after (Construct.lessThan_still _ _) fun _ hrule => hmake hrule
  · exact .after (required_still _ _ _) fun _ _ =>
      .after (Construct.multipleOf_still _) fun _ hrule => hmake hrule
  · exact stringCheck_twofold _ _ herror _
  · refine (Construct.make_plain_twofold rfl rfl _).bind ?_
    rintro _ _ ⟨id, id', tag, -, rfl, rfl⟩
    exact .pure (.schema rfl herror)
  · split
    · refine .after (Construct.overwrite_still _ _) fun rule hrule => ?_
      have hnull : Value.null.isJson = true := rfl
      have hcheck : Twofold K lenient Value.CheckTwins _ _ :=
        Construct.check_twofold (hrule (Value.isJson_field hd "name")) hnull (.bool false)
      rw [map_eq_pure_bind] at hcheck
      exact hcheck
    · exact .throw
  · exact .throw

/-- The checks of one definition. -/
theorem buildCheck_twofold {definition : Value} (h : definition.isJson = true) :
    Twofold K lenient Value.CheckTwins (buildCheck definition) (buildCheck definition) := by
  cases definition with
  | dict d =>
    refine .after (Construct.hashable_still _) fun tag _ => ?_
    split
    · exact checkOfTag_twofold h _
    · exact .throw
  | view d => cases h
  | _ => exact .throw

theorem checks_twofold (strict : Bool) {definitions : List Value}
    (h : ∀ v ∈ definitions, v.isJson = true) :
    Twofold K False (List.Forall₂ Value.CheckTwins) (checks strict definitions)
      (checks strict definitions) := by
  induction definitions with
  | nil => exact .pure .nil
  | cons definition rest ih =>
    obtain ⟨hdefinition, hrest⟩ := List.forall_mem_cons.1 h
    have hbuilds := buildCheck_builds definition
    refine (Twofold.attempt hbuilds hbuilds (buildCheck_twofold hdefinition)).bind ?_
    rintro (e | c) (e' | c') hc
    · obtain rfl := hc.resolve_left id
      cases e' with
      | definition cause =>
        cases strict with
        | true => exact .throw
        | false => exact (Twofold.logLine _ _ _ _).bind fun _ _ _ => ih hrest
      | _ => exact .throw
    · exact hc.elim
    · exact hc.elim
    · exact (ih hrest).bind fun cs cs' hcs => .pure (.cons hc hcs)

/-- The checks of definitions with the same field. -/
theorem checksOf_twofold (strict : Bool) {d d' : Entries} (hd : (Value.dict d).isJson = true)
    (h : field d' "checks" = field d "checks") :
    Twofold K False (List.Forall₂ Value.CheckTwins) (checksOf strict d) (checksOf strict d') := by
  have hgiven := Value.isJson_field hd "checks"
  unfold checksOf
  rw [h]
  dsimp only
  split
  · refine .after (.ofOption (P := fun vs => ∀ v ∈ vs, v.isJson = true) fun vs hvs =>
      Value.isJson_iterate? hgiven hvs) fun vs hvs => checks_twofold _ hvs
  · exact checks_twofold _ (List.forall_mem_nil _)

end OfDefinition

end Assay
