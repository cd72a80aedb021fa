import Assay.Proofs.Masks
import Assay.Proofs.Settled

/-!
# Meanings in accord

Two computations are in accord when they come to results that are the same behind a mask, or else to
the same fault; a lenient accord only speaks of both succeeding (`Accord`). Schemas with forms that
match part by part (`Form.Matches`) have meanings in accord when their parts do (`form_accord`).
-/

namespace Assay

open Structure

/-! ## Accord -/

section

variable {α β γ δ : Type} {lenient : Prop}

/-- Both succeed with what is related, or both end with the same fault. A lenient accord says
nothing when one of them fails. -/
def Accord (lenient : Prop) (Q : α → β → Prop) : Except Fault α → Except Fault β → Prop
  | .ok a, .ok b => Q a b
  | .error e, .error f => lenient ∨ f = e
  | .ok _, .error _ | .error _, .ok _ => lenient

namespace Accord

variable {Q : α → β → Prop} {S : γ → δ → Prop} {x : Except Fault α} {y : Except Fault β}

theorem error {e : Fault} : Accord lenient Q (.error e) (.error e) := .inr rfl

theorem of_lenient (h : lenient) (hok : ∀ a b, x = .ok a → y = .ok b → Q a b) :
    Accord lenient Q x y := by
  cases x <;> cases y
  · exact .inl h
  · exact h
  · exact h
  · exact hok _ _ rfl rfl

theorem imp {P : α → β → Prop} (h : Accord lenient Q x y) (hQ : ∀ a b, Q a b → P a b) :
    Accord lenient P x y := by
  cases x <;> cases y <;> first | exact h | exact hQ _ _ h

theorem weaken (h : Accord False Q x y) : Accord lenient Q x y := by
  cases x <;> cases y
  · exact .inr (h.resolve_left id)
  · exact h.elim
  · exact h.elim
  · exact h

/-- One computation against itself. -/
theorem refl {Q : α → α → Prop} (h : ∀ a, Q a a) : Accord lenient Q x x := by
  cases x with
  | error e => exact error
  | ok a => exact h a

theorem bind {f : α → Except Fault γ} {g : β → Except Fault δ} (h : Accord lenient Q x y)
    (hfg : ∀ a b, Q a b → Accord lenient S (f a) (g b)) :
    Accord lenient S (x >>= f) (y >>= g) := by
  cases x <;> cases y
  · exact h
  · exact of_lenient h nofun
  · exact of_lenient h fun _ _ _ hb => nomatch hb
  · exact hfg _ _ h

/-- The same computation first. -/
theorem after {f : α → Except Fault γ} {g : α → Except Fault δ}
    (h : ∀ a, Accord lenient S (f a) (g a)) : Accord lenient S (x >>= f) (x >>= g) :=
  (refl (Q := Eq) fun _ => rfl).bind fun a _ hab => hab ▸ h a

theorem eq_of_strict {a b : Except Fault α} (h : Accord False Eq a b) : a = b := by
  cases a <;> cases b
  · exact congrArg Except.error (h.resolve_left id).symm
  · exact h.elim
  · exact h.elim
  · exact congrArg Except.ok h

/-- What the computations come to is said too. -/
theorem named (h : Accord lenient Q x y) :
    Accord lenient (fun a b => Q a b ∧ x = .ok a ∧ y = .ok b) x y := by
  cases x <;> cases y <;> first | exact h | exact ⟨h, rfl, rfl⟩

theorem map {f : α → γ} {g : β → δ} (h : Accord lenient Q x y)
    (hfg : ∀ a b, Q a b → S (f a) (g b)) :
    Accord lenient S (do return f (← x)) (do return g (← y)) :=
  h.bind fun a b hab => hfg a b hab

end Accord

end

/-! ## Positions -/

variable {m : Value → Value} {lenient : Prop} {ctx : Context}
  {eval eval' : Schema Value → Value → Except Fault Result} {s t : Schema Value} {v : Value}

/-- Every value comes to the same against the two schemas, behind a mask. -/
def Agree (lenient : Prop) (m : Value → Value)
    (eval eval' : Schema Value → Value → Except Fault Result) (s t : Schema Value) : Prop :=
  ∀ v, Accord lenient (Result.Same m) (eval s v) (eval' t v)

/-- Positions with the same values, whose schemas agree. -/
abbrev AgreeAll (lenient : Prop) (m : Value → Value)
    (eval eval' : Schema Value → Value → Except Fault Result) :
    List (Schema Value × Value) → List (Schema Value × Value) → Prop :=
  List.Forall₂ fun p q => q.2 = p.2 ∧ Agree lenient m eval eval' p.1 q.1

namespace Meaning

section

variable {ps qs : List (Schema Value × Value)}

theorem each_accord (h : AgreeAll lenient m eval eval' ps qs) :
    Accord lenient (Result.SameAll m) (each eval ps) (each eval' qs) := by
  induction h with
  | nil => exact .nil
  | @cons p q _ _ hpq _ ih =>
    obtain ⟨hv, hagree⟩ := hpq
    rw [each, each, hv]
    exact (hagree p.2).bind fun _ _ hr => ih.map fun _ _ hrs => .cons hr hrs

theorem inOrder_accord (h : AgreeAll lenient m eval eval' ps qs) :
    Accord lenient (Result.SameAll m) (inOrder eval ps) (inOrder eval' qs) := by
  induction h with
  | nil => exact .nil
  | @cons p q _ _ hpq _ ih =>
    obtain ⟨hv, hagree⟩ := hpq
    rw [inOrder, inOrder, hv]
    refine (hagree p.2).bind fun r r' hr => ?_
    rw [hr.valid]
    split
    · exact ih.map fun _ _ hrs => .cons hr hrs
    · exact .cons hr .nil

theorem items_accord (h : AgreeAll lenient m eval eval' ps qs) :
    Accord lenient (Result.SameAll m) (items eval ctx ps) (items eval' ctx qs) := by
  unfold items
  split
  · exact inOrder_accord h
  · exact each_accord h

theorem options_accord {thorough : Bool} {ss ts : List (Schema Value)}
    (h : List.Forall₂ (Agree lenient m eval eval') ss ts) :
    Accord lenient (Result.SameAll m) (options eval thorough v ss)
      (options eval' thorough v ts) := by
  induction h with
  | nil => exact .nil
  | cons hst _ ih =>
    refine (hst v).bind fun r r' hr => ?_
    rw [hr.valid]
    split
    · exact .cons hr .nil
    · exact ih.map fun _ _ hrs => .cons hr hrs

end

end Meaning

/-! ## Structures -/

/-- Lists of pairs with the same first parts. -/
theorem firsts_eq {α β γ : Type} {P : α × β → α × γ → Prop} {es : List (α × β)}
    {fs : List (α × γ)} (h : List.Forall₂ (fun e f => f.1 = e.1 ∧ P e f) es fs) :
    fs.map (·.1) = es.map (·.1) := by
  induction h with
  | nil => rfl
  | cons he _ ih => rw [List.map_cons, List.map_cons, he.1, ih]

namespace Structure

variable {rs rs' : List Result}

theorem unknownKeys_congr {shape shape' : List (Value × Schema Value)}
    (h : shape'.map (·.1) = shape.map (·.1)) (data : Entries) :
    unknownKeys shape' data = unknownKeys shape data := by
  have hnamed (shape : List (Value × Schema Value)) (k : Value) :
      (shape.any fun f => f.1.isFound k) = (shape.map (·.1)).any (·.isFound k) := by
    rw [List.any_map]
    rfl
  unfold unknownKeys
  simp only [hnamed, h]

/-- The positions of objects with shapes that agree. -/
theorem objectItems_agree {shape shape' : List (Value × Schema Value)}
    {catchall catchall' : Option (Schema Value)}
    (hshape : List.Forall₂ (fun e f => f.1 = e.1 ∧ Agree lenient m eval eval' e.2 f.2)
      shape shape')
    (hcatchall : Option.Rel (Agree lenient m eval eval') catchall catchall') (data : Entries) :
    List.Forall₂ (fun p q => q.1 = p.1 ∧ q.2.2 = p.2.2 ∧ Agree lenient m eval eval' p.2.1 q.2.1)
      (objectItems shape catchall data) (objectItems shape' catchall' data) := by
  have hnamed : List.Forall₂
      (fun p q => q.1 = p.1 ∧ q.2.2 = p.2.2 ∧ Agree lenient m eval eval' p.2.1 q.2.1)
      (shape.map fun f => (f.1, f.2, (data.find? f.1).getD .missing))
      (shape'.map fun f => (f.1, f.2, (data.find? f.1).getD .missing)) := by
    rw [List.forall₂_map_left_iff, List.forall₂_map_right_iff]
    exact hshape.imp fun e f hef => ⟨hef.1, by rw [hef.1], hef.2⟩
  unfold objectItems
  cases hcatchall with
  | none => exact hnamed
  | some hc =>
    dsimp only
    rw [unknownKeys_congr (firsts_eq hshape)]
    refine List.rel_append hnamed ?_
    rw [List.forall₂_map_left_iff, List.forall₂_map_right_iff]
    exact List.forall₂_same.2 fun e _ => ⟨rfl, rfl, hc⟩

/-- The positions of tuples with schemas that agree. -/
theorem tupleItems_agree {ss ss' : List (Schema Value)} {rest rest' : Option (Schema Value)}
    (h : List.Forall₂ (Agree lenient m eval eval') ss ss')
    (hrest : Option.Rel (Agree lenient m eval eval') rest rest') (vs : List Value) :
    AgreeAll lenient m eval eval' (tupleItems rest ss vs) (tupleItems rest' ss' vs) := by
  induction h generalizing vs with
  | nil =>
    cases hrest with
    | none => exact .nil
    | some ht =>
      refine List.forall₂_map_left_iff.2 (List.forall₂_map_right_iff.2 ?_)
      exact List.forall₂_same.2 fun w _ => ⟨rfl, ht⟩
  | cons hs _ ih =>
    cases vs with
    | nil => exact .cons ⟨rfl, hs⟩ (ih [])
    | cons w vs => exact .cons ⟨rfl, hs⟩ (ih vs)

/-- The positions of entries with schemas that agree. -/
theorem entryItems_agree {k k' x x' : Schema Value} (hk : Agree lenient m eval eval' k k')
    (hx : Agree lenient m eval eval' x x') (data : Entries) :
    AgreeAll lenient m eval eval' (entryItems k x data) (entryItems k' x' data) := by
  induction data with
  | nil => exact .nil
  | cons e data ih => exact .cons ⟨rfl, hk⟩ (.cons ⟨rfl, hx⟩ ih)

theorem rel_mono {α β : Type} {P Q : α → β → Prop} (h : ∀ a b, P a b → Q a b) {o : Option α}
    {o' : Option β} (ho : Option.Rel P o o') : Option.Rel Q o o' := by
  cases ho with
  | none => exact .none
  | some hab => exact .some (h _ _ hab)

/-- Several values against schemas that agree. -/
theorem map_agree {α : Type} (h : Agree lenient m eval eval' s t) (f : α → Value)
    (as : List α) :
    AgreeAll lenient m eval eval' (as.map fun a => (s, f a)) (as.map fun a => (t, f a)) :=
  List.forall₂_map_left_iff.2 (List.forall₂_map_right_iff.2
    (List.forall₂_same.2 fun _ _ => ⟨rfl, h⟩))

theorem entries_accord {report report' : EntryReport}
    (hreport : EntryReport.Same m report report') (h : Result.SameAll m rs rs')
    (keys : List Value) {acc acc' : Result} (hacc : Result.Same m acc acc') (output : Entries) :
    Accord lenient (Result.Same m) (Structure.entries report keys rs acc output)
      (Structure.entries report' keys rs' acc' output) := by
  induction keys generalizing rs rs' acc acc' output with
  | nil => exact .intro hacc.issues
  | cons k keys ih =>
    cases h with
    | nil => exact .intro hacc.issues
    | cons hk hrest =>
      cases hrest with
      | nil => exact .intro (hacc.issues.append (hreport.ofKey k hk))
      | @cons x x' _ _ hx hrest =>
        have hfound := (hreport.ofKey k hk).append (hreport.ofValue k hx)
        unfold Structure.entries addOutputs
        rw [hk.valid, hk.value, hx.valid, hx.value]
        refine .after fun output => ih hrest ?_ output
        rw [hacc.value]
        exact .intro (hacc.issues.append hfound)

theorem set_accord (h : Result.SameAll m rs rs') :
    Accord lenient (Result.Same m) (Structure.set rs) (Structure.set rs') := by
  unfold Structure.set
  dsimp only
  rw [h.valid.values]
  split
  · exact .intro h.issues
  · exact .error

end Structure

theorem intersectionResult_accord {rs rs' : List Result} (h : Result.SameAll m rs rs') :
    Accord lenient (Result.Same m) (intersectionResult v rs) (intersectionResult v rs') := by
  have hissues := h.issues
  have hnone : Result.Same m ⟨v, rs.flatMap (·.issues)⟩ ⟨v, rs'.flatMap (·.issues)⟩ :=
    .intro hissues
  unfold intersectionResult
  dsimp only
  rw [hissues.isEmpty]
  cases h with
  | nil => exact hnone
  | cons hl hrest =>
    cases hrest with
    | nil => exact hnone
    | cons hr hrest =>
      cases hrest with
      | nil =>
        dsimp only
        rw [hl.value, hr.value]
        split
        · exact .after fun _ => .ok
        · exact hnone
      | cons _ _ => exact hnone

/-! ## Forms that match -/

/-- A form without parts whose evaluation asks nothing of a session. -/
def Form.isSimple {V S : Type} : Form V S → Bool
  | .string _ | .format .. | .number _ | .integer .. | .boolean _ | .date _ | .null | .any
  | .unknown | .never | .literal _ | .enumeration .. | .generic => true
  | _ => false

/-- Forms with matching parts that are the same otherwise. A key schema must enumerate what the
other one does. -/
inductive Form.Matches (R : Schema Value → Schema Value → Prop) :
    Form Value (Schema Value) → Form Value (Schema Value) → Prop
  | simple {form} : form.isSimple = true → Matches R form form
  | object {shape shape' policy catchall catchall'} :
      List.Forall₂ (fun e f => f.1 = e.1 ∧ R e.2 f.2) shape shape' →
      Option.Rel R catchall catchall' →
      Matches R (.object shape policy catchall) (.object shape' policy catchall')
  | array {e e'} : R e e' → Matches R (.array e) (.array e')
  | tuple {ss ss' rest rest'} : List.Forall₂ R ss ss' → Option.Rel R rest rest' →
      Matches R (.tuple ss rest) (.tuple ss' rest')
  | record {k k' x x'} : R k k' → R x x' → Construct.enumerated? k' = Construct.enumerated? k →
      Matches R (.record k x) (.record k' x')
  | map {k k' x x'} : R k k' → R x x' → Matches R (.map k x) (.map k' x')
  | set {e e'} : R e e' → Matches R (.set e) (.set e')
  | union {ss ss'} : List.Forall₂ R ss ss' → Matches R (.union ss) (.union ss')
  | discriminatedUnion {ss ss' d table} : List.Forall₂ R ss ss' →
      Matches R (.discriminatedUnion ss d table) (.discriminatedUnion ss' d table)
  | intersection {l l' r r'} : R l l' → R r r' → Matches R (.intersection l r) (.intersection l' r')
  | optional {s s'} : R s s' → Matches R (.optional s) (.optional s')
  | nullable {s s'} : R s s' → Matches R (.nullable s) (.nullable s')
  | default {s s' d} : R s s' → Matches R (.default s d) (.default s' d)
  | prefault {s s' d} : R s s' → Matches R (.prefault s d) (.prefault s' d)
  | catching {s s' d} : d.isCallable = false → R s s' → Matches R (.catching s d) (.catching s' d)
  | readonly {s s'} : R s s' → Matches R (.readonly s) (.readonly s')
  | promise {s s'} : R s s' → Matches R (.promise s) (.promise s')
  | pipe {s s' t t'} : R s s' → R t t' → Matches R (.pipe s t) (.pipe s' t')

namespace Meaning

variable {R : Schema Value → Schema Value → Prop}

section

variable (hst : m (.schema s) = m (.schema t))
include hst

theorem object_accord {shape shape' : List (Value × Schema Value)} (policy : UnknownKeys)
    {catchall catchall' : Option (Schema Value)}
    (hshape : List.Forall₂ (fun e f => f.1 = e.1 ∧ Agree lenient m eval eval' e.2 f.2)
      shape shape')
    (hcatchall : Option.Rel (Agree lenient m eval eval') catchall catchall') :
    Accord lenient (Result.Same m) (object ctx eval s shape policy catchall v)
      (object ctx eval' t shape' policy catchall' v) := by
  unfold object
  cases v.entries? with
  | none => exact .wrongType hst _
  | some data =>
    have hplaces := objectItems_agree hshape hcatchall data
    have hitems : AgreeAll lenient m eval eval' ((objectItems shape catchall data).map (·.2))
        ((objectItems shape' catchall' data).map (·.2)) :=
      List.forall₂_map_left_iff.2 (List.forall₂_map_right_iff.2
        (hplaces.imp fun _ _ hpq => hpq.2))
    have hsome : catchall'.isSome = catchall.isSome := by cases hcatchall <;> rfl
    dsimp only
    rw [unknownKeys_congr (firsts_eq hshape), firsts_eq hplaces, hsome]
    exact (items_accord hitems).map fun rs rs' hrs =>
      object_same hst ctx policy _ v _ (hrs.placedAt _)

theorem array_accord {e e' : Schema Value} (h : Agree lenient m eval eval' e e') :
    Accord lenient (Result.Same m) (array ctx eval s e v) (array ctx eval' t e' v) := by
  unfold array
  cases v.items? with
  | none => exact .wrongType hst _
  | some vs => exact (items_accord (map_agree h id vs)).map fun _ _ hrs => array_same hrs

theorem tuple_accord {required required' : Except Fault Nat}
    (hrequired : Accord lenient Eq required required') {ss ss' : List (Schema Value)}
    {rest rest' : Option (Schema Value)}
    (h : List.Forall₂ (Agree lenient m eval eval') ss ss')
    (hrest : Option.Rel (Agree lenient m eval eval') rest rest') :
    Accord lenient (Result.Same m) (tuple ctx eval required s ss rest v)
      (tuple ctx eval' required' t ss' rest' v) := by
  have hsome : rest'.isSome = rest.isSome := by cases hrest <;> rfl
  unfold tuple
  cases v.items? with
  | none => exact .wrongType hst _
  | some vs =>
    refine hrequired.bind ?_
    rintro n _ rfl
    rw [hsome, ← h.length_eq]
    cases hlength : tupleLength n ss.length rest.isSome vs.length with
    | some d => exact .failed hst d
    | none =>
      exact (items_accord (tupleItems_agree h hrest vs)).map fun _ _ hrs => tuple_same hrs vs.length

theorem record_accord {k k' x x' : Schema Value} (hk : Agree lenient m eval eval' k k')
    (hx : Agree lenient m eval eval' x x')
    (hkeys : Construct.enumerated? k' = Construct.enumerated? k) :
    Accord lenient (Result.Same m) (record ctx eval s k x v) (record ctx eval' t k' x' v) := by
  unfold record
  cases v.entries? with
  | none => exact .wrongType hst _
  | some data =>
    dsimp only
    rw [hkeys]
    cases Construct.enumerated? k with
    | none =>
      exact (items_accord (entryItems_agree hk hx data)).bind fun rs rs' hrs =>
        entries_accord (recordReport_same hst) hrs _ .ok []
    | some allowed =>
      dsimp only
      cases Value.areHashable allowed with
      | false => exact .error
      | true =>
        exact (items_accord (map_agree hx _ allowed)).map fun rs rs' hrs =>
          enumeratedRecord_same hst ctx allowed v data (hrs.placedAt _)

theorem map_accord {k k' x x' : Schema Value} (hk : Agree lenient m eval eval' k k')
    (hx : Agree lenient m eval eval' x x') :
    Accord lenient (Result.Same m) (map ctx eval s k x v) (map ctx eval' t k' x' v) := by
  unfold map
  cases v.entries? with
  | none => exact .wrongType hst _
  | some data =>
    exact (items_accord (entryItems_agree hk hx data)).bind fun rs rs' hrs =>
      entries_accord (mapReport_same hst) hrs _ .ok []

theorem set_accord {e e' : Schema Value} (h : Agree lenient m eval eval' e e') :
    Accord lenient (Result.Same m) (set ctx eval s e v) (set ctx eval' t e' v) := by
  unfold set
  split
  · exact (items_accord (map_agree h id _)).bind fun _ _ hrs => Structure.set_accord hrs
  · exact (items_accord (map_agree h id _)).bind fun _ _ hrs => Structure.set_accord hrs
  · exact .wrongType hst _

theorem discriminated_accord {σ : Session} {ss ss' : List (Schema Value)} (d : Value)
    (table : List (Value × Nat)) (h : List.Forall₂ (Agree lenient m eval eval') ss ss') :
    Accord lenient (Result.Same m) (discriminated σ eval s ss d table v)
      (discriminated σ eval' t ss' d table v) := by
  have hpick (tag : Value) : Option.Rel (Agree lenient m eval eval') (pickOption ss table tag)
      (pickOption ss' table tag) := by
    unfold pickOption
    cases table.find? fun e => tag.same e.1 with
    | none => exact .none
    | some e =>
      dsimp only [Option.bind_some]
      by_cases hi : e.2 < ss.length
      · rw [List.getElem?_eq_getElem hi, List.getElem?_eq_getElem (h.length_eq ▸ hi)]
        exact .some (h.get hi (h.length_eq ▸ hi))
      · have hi' : ¬ e.2 < ss'.length := h.length_eq ▸ hi
        rw [List.getElem?_eq_none (Nat.le_of_not_lt hi),
          List.getElem?_eq_none (Nat.le_of_not_lt hi')]
        exact .none
  unfold discriminated
  cases v.entries? with
  | none => exact .wrongType hst _
  | some data =>
    refine .after fun key => ?_
    dsimp only
    have hpicked := hpick ((data.find? key).getD .missing)
    generalize pickOption ss table _ = o at hpicked
    generalize pickOption ss' table _ = o' at hpicked
    cases hpicked with
    | none => exact .intro (.one hst rfl)
    | some ho => exact ho v

end

theorem caught_accord {host : Host} {σ : Session} {fallback : Value}
    (h : fallback.isCallable = false) {r r' : Result} (hr : Result.Same m r r') :
    Accord lenient (Result.Same m) (caught host σ ctx fallback v r)
      (caught host σ ctx fallback v r') := by
  unfold caught
  rw [h, hr.valid]
  split
  · exact hr
  · exact .ok

/-- Forms that match are in accord when their parts agree. -/
theorem form_accord {host : Host} {σ : Session} {thorough : Bool} {fuel fuel' : Nat}
    (hst : m (.schema s) = m (.schema t)) (hkind : t.kind = s.kind)
    (hform : s.form.Matches R t.form) (h : ∀ a b, R a b → Agree lenient m eval eval' a b)
    (habsent : ∀ ss ss', List.Forall₂ R ss ss' → Accord lenient Eq
      ((requiredPositions (Schema.acceptsAbsent host fuel) ss.reverse).answer σ)
      ((requiredPositions (Schema.acceptsAbsent host fuel') ss'.reverse).answer σ)) :
    Accord lenient (Result.Same m) (form host σ ctx thorough eval fuel s v)
      (form host σ ctx thorough eval' fuel' t v) := by
  have hrequire (test : Value → Bool) (expected : String) (w : Value) :
      Result.Same m (Scalar.require test expected s w) (Scalar.require test expected t w) := by
    unfold Scalar.require
    split
    · exact .ok
    · exact .wrongType hst _
  have hall {ss ss' : List (Schema Value)} (hss : List.Forall₂ R ss ss') := hss.imp h
  unfold form
  generalize s.form = form at hform ⊢
  generalize t.form = form' at hform ⊢
  cases hform with
  | simple hsimple =>
    cases form with
    | string _ | format _ _ _ | boolean _ | null => exact hrequire _ _ _
    | number coerce | integer coerce _ =>
      dsimp only [Scalar.number]
      split
      · exact hrequire _ _ _
      · exact .wrongType hst _
    | date coerce =>
      dsimp only [Scalar.date]
      split
      · exact hrequire _ _ _
      · exact .wrongType hst _
    | any | unknown => exact .ok
    | never => exact .wrongType hst _
    | literal values =>
      dsimp only [Scalar.literal]
      split
      · exact .ok
      · exact .failed hst _
    | enumeration entries cls =>
      dsimp only [Scalar.enumeration]
      split
      · split
        · exact .ok
        · exact .failed hst _
      · split
        · exact .ok
        · exact .failed hst _
    | generic => exact hkind ▸ .error
    | _ => cases hsimple
  | object hshape hcatchall =>
    exact object_accord hst _ (hshape.imp fun e f hef => ⟨hef.1, h _ _ hef.2⟩)
      (rel_mono h hcatchall)
  | array he => exact array_accord hst (h _ _ he)
  | tuple hss hrest => exact tuple_accord hst (habsent _ _ hss) (hall hss) (rel_mono h hrest)
  | record hk hx hkeys => exact record_accord hst (h _ _ hk) (h _ _ hx) hkeys
  | map hk hx => exact map_accord hst (h _ _ hk) (h _ _ hx)
  | set he => exact set_accord hst (h _ _ he)
  | union hss => exact (options_accord (hall hss)).map fun _ _ hrs => unionResult_same hst v hrs
  | discriminatedUnion hss => exact discriminated_accord hst _ _ (hall hss)
  | @intersection l l' r r' hl hr =>
    have hitems : AgreeAll lenient m eval eval' [(l, v), (r, v)] [(l', v), (r', v)] :=
      .cons ⟨rfl, h _ _ hl⟩ (.cons ⟨rfl, h _ _ hr⟩ .nil)
    exact (items_accord hitems).bind fun _ _ hrs => intersectionResult_accord hrs
  | optional hs | nullable hs =>
    have hinner := h _ _ hs v
    cases v <;> first | exact .ok | exact hinner
  | default hs =>
    have hinner := h _ _ hs v
    cases v <;> first | exact .after fun _ => .ok | exact hinner
  | prefault hs =>
    have hinner := h _ _ hs
    cases v <;> first | exact .after hinner | exact hinner _
  | catching hcallable hs => exact (h _ _ hs v).bind fun _ _ hr => caught_accord hcallable hr
  | readonly hs =>
    refine (h _ _ hs v).map fun r r' hr => ?_
    rw [hr.valid, hr.value]
    split
    · exact .ok
    · exact hr
  | promise hs =>
    have hinner := h _ _ hs v
    cases v <;> first | exact hinner | exact hkind ▸ .error
  | pipe hs ht =>
    refine (h _ _ hs v).bind fun r r' hr => ?_
    rw [hr.valid, hr.value]
    split
    · exact h _ _ ht r.value
    · exact hr

end Meaning

end Assay
