import Assay.Proofs.Checks
import Assay.Proofs.Outline
import Assay.Proofs.Positions
import Assay.Proofs.Purity
import Mathlib.Data.List.Basic

/-!
# Who reports issues

When a schema calls nothing that reports issues of its own (`Schema.IsPlain`), every issue of its
meaning, at every depth of nesting, is reported by a schema that it reaches or by a check of one
(`meaning_sourced`). The providers that are asked for the words of these issues are then known
beforehand, and if they all answer, the issues get their words (`Schema.Answers.finalize`).
-/

namespace Assay

/-- All issues of a schema are found by itself and by what it reaches: it calls no callback and no
evaluator that reports issues, its transformations report none, and nothing is made of issues that
were found. -/
structure Schema.IsPlain (host : Host) (σ : Session) (s : Schema Value) : Prop where
  evaluators : ∀ t, s.Reaches host σ t →
    ∀ fn, σ.kinds.evaluator? t.kind = .ok fn → fn = .builtin .evaluateNode
  checks : ∀ t, s.Reaches host σ t → ∀ c, .check c ∈ t.checks → ∀ fn, c.rule ≠ .superRefinement fn
  transforms : ∀ t, s.Reaches host σ t → ∀ fn, t.form = .transform fn →
    ∀ call r, (host.start fn call).answer σ = .ok (.ready r) → r.valid = true
  fallbacks : ∀ t, s.Reaches host σ t → ∀ inner fallback, t.form = .catching inner fallback →
    fallback.isCallable = false

variable {host : Host} {σ : Session}

/-! ## What finds one issue at most -/

section

variable {s : Schema Value} {v : Value}

/-- A check that is no callback for issues finds at most one. -/
theorem check_atomic {c : Value} {r : Result}
    (hc : ∀ d, c = .check d → ∀ fn, d.rule ≠ .superRefinement fn)
    (h : Meaning.check host σ c v = .ok r) : r.Atomic c := by
  cases c with
  | check c =>
    have hrule : (do return Result.of v (.check c) (← c.rule.verdict v)) = Except.ok r →
        r.Atomic (.check c) := by
      intro h
      obtain ⟨detail, hdetail, h⟩ := bind_eq_ok.1 h
      cases h
      exact .of (by rintro d rfl; exact Rule.verdict_flat hdetail)
    unfold Meaning.check at h
    dsimp only at h
    split at h
    · obtain ⟨w, -, h⟩ := bind_eq_ok.1 h
      cases h
      exact .ok _
    · obtain ⟨verdict, -, h⟩ := bind_eq_ok.1 h
      split at h
      · cases h
        exact .ok v
      · obtain ⟨params, -, h⟩ := bind_eq_ok.1 h
        cases h
        exact .inr ⟨_, rfl, rfl, rfl⟩
    · exact absurd ‹_› (hc c rfl _)
    · exact hrule h
  | schema s =>
    unfold Meaning.check at h
    dsimp only at h
    split at h
    · cases h
      exact .of fun d hd => Form.verdict_flat hd
    · cases h
  | _ => cases h

theorem require_atomic (test : Value → Bool) (expected : String) (s : Schema Value) (v : Value) :
    (Scalar.require test expected s v).Atomic (.schema s) := by
  unfold Scalar.require
  split
  · exact .ok v
  · exact .wrongType s v expected

theorem number_atomic (s : Schema Value) (coerce : Bool) (v : Value) :
    (Scalar.number s coerce v).Atomic (.schema s) := by
  unfold Scalar.number
  split
  · exact require_atomic ..
  · exact .wrongType s v _

theorem date_atomic (s : Schema Value) (coerce : Bool) (v : Value) :
    (Scalar.date s coerce v).Atomic (.schema s) := by
  unfold Scalar.date
  split
  · exact require_atomic ..
  · exact .wrongType s v _

theorem literal_atomic (s : Schema Value) (values : List Value) (v : Value) :
    (Scalar.literal s values v).Atomic (.schema s) := by
  unfold Scalar.literal
  split
  · exact .ok v
  · exact .failed s v rfl

theorem enumeration_atomic (s : Schema Value) (entries : List (Value × Value))
    (cls : Option (EnumClass Value)) (v : Value) :
    (Scalar.enumeration s entries cls v).Atomic (.schema s) := by
  unfold Scalar.enumeration
  split
  · split
    · exact .ok _
    · exact .failed s v rfl
  · split
    · exact .ok v
    · exact .failed s v rfl

theorem custom_atomic {fn params : Value} {r : Result}
    (h : Meaning.custom host σ s fn params v = .ok r) : r.Atomic (.schema s) := by
  unfold Meaning.custom at h
  split at h
  · cases h
    exact .ok _
  · obtain ⟨verdict, -, h⟩ := bind_eq_ok.1 h
    split at h
    · cases h
      exact .ok _
    · obtain ⟨params, -, h⟩ := bind_eq_ok.1 h
      cases h
      exact .failed s _ rfl

/-- A function that reports no issues. -/
theorem promptly_atomic (source : Value) {kind fn : Value} {call : Call Value} {r : Result}
    (h : ∀ r, (host.start fn call).answer σ = .ok (.ready r) → r.valid = true)
    (hr : Meaning.promptly host σ kind fn call = .ok r) : r.Atomic source := by
  unfold Meaning.promptly at hr
  obtain ⟨o, ho, hr⟩ := bind_eq_ok.1 hr
  cases o with
  | later work => cases hr
  | ready q =>
    dsimp only [Outcome.now?] at hr
    split at hr
    · cases hr
    · cases hr
      exact .inl (Result.valid_iff.1 (h _ ho))

end

/-! ## Sources -/

mutual

/-- The source of the issue, and of all issues that it nests, satisfies `P`. -/
def Issue.Sourced (P : Value → Prop) : Issue Value → Prop
  | ⟨_, _, _, source, detail⟩ => P source ∧ detailSourced P detail
termination_by structural x => x

/-- The issues that a detail nests are sourced. -/
def detailSourced (P : Value → Prop) : Detail Value (Issue Value) → Prop
  | .invalidUnion groups _ _ => groupsSourced P groups
  | .invalidKey _ issues => allSourced P issues
  | .invalidElement _ _ issues => allSourced P issues
  | _ => True
termination_by structural x => x

/-- Every issue of a list is sourced. -/
def allSourced (P : Value → Prop) : List (Issue Value) → Prop
  | [] => True
  | i :: is => i.Sourced P ∧ allSourced P is
termination_by structural x => x

/-- Every issue of every group is sourced. -/
def groupsSourced (P : Value → Prop) : List (List (Issue Value)) → Prop
  | [] => True
  | g :: gs => allSourced P g ∧ groupsSourced P gs
termination_by structural x => x

end

section

variable {P : Value → Prop}

theorem allSourced_iff {is : List (Issue Value)} :
    allSourced P is ↔ ∀ i ∈ is, i.Sourced P := by
  induction is with
  | nil => simp [allSourced]
  | cons i is ih => rw [allSourced, ih, List.forall_mem_cons]

theorem groupsSourced_iff {gs : List (List (Issue Value))} :
    groupsSourced P gs ↔ ∀ g ∈ gs, ∀ i ∈ g, i.Sourced P := by
  induction gs with
  | nil => simp [groupsSourced]
  | cons g gs ih => rw [groupsSourced, allSourced_iff, ih, List.forall_mem_cons]

theorem detailSourced_of_isFlat {d : Detail Value (Issue Value)} (h : d.isFlat = true) :
    detailSourced P d := by
  cases d <;> trivial

theorem Issue.Sourced.under {i : Issue Value} (h : i.Sourced P) (keys : List Value) :
    (i.under keys).Sourced P := by
  obtain ⟨path, message, input, source, detail⟩ := i
  exact h

/-! ## Results -/

/-- Every issue of the result is sourced. -/
def Result.Sourced (P : Value → Prop) (r : Result) : Prop := ∀ i ∈ r.issues, i.Sourced P

namespace Result.Sourced

theorem ok (v : Value) : Result.Sourced P ⟨v, []⟩ := fun _ hi => nomatch hi

theorem one {v : Value} {i : Issue Value} (h : i.Sourced P) : Result.Sourced P ⟨v, [i]⟩ := by
  rintro _ (_ | ⟨_, ⟨⟩⟩)
  exact h

theorem of_atomic {source : Value} {r : Result} (hP : P source) (h : r.Atomic source) :
    r.Sourced P := by
  obtain ⟨v, is⟩ := r
  rcases h with h | ⟨⟨path, message, input, source', detail⟩, h, hsource, hflat⟩ <;> cases h
  · exact ok v
  · cases hsource
    exact one ⟨hP, detailSourced_of_isFlat hflat⟩

theorem append {v : Value} {is js : List (Issue Value)} (his : ∀ i ∈ is, i.Sourced P)
    (hjs : ∀ i ∈ js, i.Sourced P) : Result.Sourced P ⟨v, is ++ js⟩ :=
  fun i hi => (List.mem_append.1 hi).elim (his i) (hjs i)

end Result.Sourced

variable {s : Schema Value} {rs : List Result}

theorem issuesUnder_sourced (h : ∀ r ∈ rs, r.Sourced P) (keys : List Value) :
    ∀ i ∈ Structure.issuesUnder (placedAt keys rs), i.Sourced P := by
  intro i hi
  obtain ⟨⟨k, r⟩, hr, hi⟩ := List.mem_flatMap.1 hi
  obtain ⟨j, hj, rfl⟩ := List.mem_map.1 hi
  exact (h r (List.of_mem_zip hr).2 j hj).under [k]

theorem indexed_sourced (h : ∀ r ∈ rs, r.Sourced P) :
    ∀ i ∈ Structure.issuesUnder (Structure.indexed 0 rs), i.Sourced P := by
  rw [indexed_eq_placedAt rs 0 _ (Nat.le_refl _)]
  exact issuesUnder_sourced h _

theorem object_sourced {ctx : Context} (hs : P (.schema s)) (h : ∀ r ∈ rs, r.Sourced P)
    (keys : List Value) (policy : UnknownKeys) (hasCatchall : Bool) (v : Value)
    (unknown : Entries) :
    (Structure.object s ctx policy hasCatchall v unknown (placedAt keys rs)).Sourced P := by
  have hissues := issuesUnder_sourced h keys
  unfold Structure.object
  dsimp only
  split
  · exact hissues
  · split
    · exact hissues
    · cases policy with
      | strip => exact hissues
      | passthrough => exact hissues
      | strict =>
        exact .append hissues (Result.Sourced.one (v := v) ⟨hs, trivial⟩)

theorem enumeratedRecord_sourced {ctx : Context} (hs : P (.schema s))
    (h : ∀ r ∈ rs, r.Sourced P) (allowed : List Value) (v : Value) (data : Entries) :
    (Structure.enumeratedRecord s ctx allowed v data (placedAt allowed rs)).Sourced P := by
  have hissues := issuesUnder_sourced h allowed
  unfold Structure.enumeratedRecord
  dsimp only
  split
  · exact hissues
  · exact .append hissues (Result.Sourced.one (v := v) ⟨hs, trivial⟩)

/-- What a report of entries makes of sourced results is sourced. -/
def EntryReport.Sources (P : Value → Prop) (report : Structure.EntryReport) : Prop :=
  ∀ k r, r.Sourced P → (∀ i ∈ report.key k r, i.Sourced P) ∧ ∀ i ∈ report.value k r, i.Sourced P

theorem recordReport_sourced (hs : P (.schema s)) :
    EntryReport.Sources P (Structure.recordReport s) := by
  intro k r hr
  refine ⟨Result.Sourced.one (v := k) ⟨hs, allSourced_iff.2 hr⟩, fun i hi => ?_⟩
  obtain ⟨j, hj, rfl⟩ := List.mem_map.1 hi
  exact (hr j hj).under [k]

theorem mapReport_sourced (hs : P (.schema s)) :
    EntryReport.Sources P (Structure.mapReport s) :=
  fun k _ hr => ⟨Result.Sourced.one (v := k) ⟨hs, allSourced_iff.2 hr⟩,
    Result.Sourced.one (v := k) ⟨hs, allSourced_iff.2 hr⟩⟩

theorem entries_sourced {report : Structure.EntryReport} (hreport : EntryReport.Sources P report)
    {keys : List Value} {acc : Result} {output : Entries} {r : Result}
    (h : ∀ q ∈ rs, q.Sourced P) (hacc : acc.Sourced P)
    (hr : Structure.entries report keys rs acc output = .ok r) : r.Sourced P := by
  intro i hi
  rcases mem_entries_issues hr hi with hi | ⟨n, k, -, ⟨q, hq, hi⟩ | ⟨q, hq, hi⟩⟩
  · exact hacc i hi
  · unfold Structure.EntryReport.ofKey at hi
    split at hi
    · cases hi
    · exact (hreport k q (h q (List.mem_of_getElem? hq))).1 i hi
  · unfold Structure.EntryReport.ofValue at hi
    split at hi
    · cases hi
    · exact (hreport k q (h q (List.mem_of_getElem? hq))).2 i hi

theorem set_sourced {r : Result} (h : ∀ q ∈ rs, q.Sourced P) (hr : Structure.set rs = .ok r) :
    r.Sourced P := by
  unfold Structure.set at hr
  dsimp only at hr
  split at hr
  · cases hr
    intro i hi
    obtain ⟨q, hq, hi⟩ := List.mem_flatMap.1 hi
    exact h q hq i hi
  · cases hr

theorem intersection_sourced {v : Value} {r : Result} (h : ∀ q ∈ rs, q.Sourced P)
    (hr : intersectionResult v rs = .ok r) : r.Sourced P := by
  have hissues : Result.Sourced P ⟨v, rs.flatMap (·.issues)⟩ := by
    intro i hi
    obtain ⟨q, hq, hi⟩ := List.mem_flatMap.1 hi
    exact h q hq i hi
  unfold intersectionResult at hr
  dsimp only at hr
  split at hr
  · split at hr
    · obtain ⟨w, -, hr⟩ := bind_eq_ok.1 hr
      cases hr
      exact .ok w
    · cases hr
      exact hissues
  · cases hr
    exact hissues

theorem unionResult_sourced (hs : P (.schema s)) (h : ∀ q ∈ rs, q.Sourced P) (v : Value) :
    (unionResult s v rs).Sourced P := by
  unfold unionResult
  split
  · exact .ok _
  · refine .one ⟨hs, groupsSourced_iff.2 fun g hg => ?_⟩
    obtain ⟨q, hq, rfl⟩ := List.mem_map.1 hg
    exact h q hq

/-! ## Meanings -/

/-- Where there is a result it is sourced. -/
def Sources (P : Value → Prop) (m : Except Fault Result) : Prop := ∀ r, m = .ok r → r.Sourced P

namespace Sources

theorem of_result {r : Result} (h : r.Sourced P) : Sources P (.ok r) := by
  rintro _ ⟨⟩
  exact h

theorem error {f : Fault} : Sources P (.error f) := fun _ h => nomatch h

theorem bind {α : Type} {x : Except Fault α} {f : α → Except Fault Result}
    (h : ∀ a, x = .ok a → Sources P (f a)) : Sources P (x >>= f) := by
  cases x with
  | error e => exact error
  | ok a => exact h a rfl

end Sources

variable {ctx : Context} {thorough : Bool} {v : Value}
  {recur : Schema Value → Value → Except Fault Result}

/-- Going on from the positions. -/
theorem items_sourced {ps : List (Schema Value × Value)}
    (h : ∀ p ∈ ps, Sources P (recur p.1 p.2)) {f : List Result → Except Fault Result}
    (hf : ∀ rs, (∀ r ∈ rs, r.Sourced P) → Sources P (f rs)) :
    Sources P (Meaning.items recur ctx ps >>= f) := by
  refine .bind fun rs hrs => hf rs fun r hr => ?_
  obtain ⟨p, hp, hread⟩ := Meaning.of_mem_items hrs r hr
  exact h p hp r hread

theorem options_sourced {schemas : List (Schema Value)}
    (h : ∀ t ∈ schemas, Sources P (recur t v))
    (hrs : Meaning.options recur thorough v schemas = .ok rs) : ∀ r ∈ rs, r.Sourced P := by
  intro r hr
  obtain ⟨t, ht, hread⟩ := Meaning.of_mem_options hrs r hr
  exact h t ht r hread

theorem checksFrom_sourced {cs : List Value}
    (hcs : ∀ c, .check c ∈ cs → ∀ fn, c.rule ≠ .superRefinement fn) (hP : ∀ c ∈ cs, P c)
    {acc : Result} (hacc : acc.Sourced P) : Sources P (Meaning.checksFrom host σ ctx cs acc) := by
  induction cs generalizing acc with
  | nil => exact .of_result hacc
  | cons c cs ih =>
    refine .bind fun outcome houtcome => ?_
    have hc := check_atomic (fun d hd => hcs d (hd ▸ List.mem_cons_self ..)) houtcome
    have hmerge : (acc.merge outcome).Sourced P :=
      .append hacc (Result.Sourced.of_atomic (hP c (List.mem_cons_self ..)) hc)
    split
    · exact .of_result hmerge
    · exact ih (fun d hd => hcs d (List.mem_cons_of_mem _ hd))
        (fun d hd => hP d (List.mem_cons_of_mem _ hd)) hmerge

section

variable (hs : P (.schema s))

include hs

theorem atomic_sourced {r : Result} (h : r.Atomic (.schema s)) : Sources P (.ok r) :=
  .of_result (.of_atomic hs h)

theorem objectMeaning_sourced {shape : List (Value × Schema Value)} {policy : UnknownKeys}
    {catchall : Option (Schema Value)}
    (h : ∀ t ∈ shape.map (·.2) ++ catchall.toList, ∀ w, Sources P (recur t w)) :
    Sources P (Meaning.object ctx recur s shape policy catchall v) := by
  unfold Meaning.object
  cases v.entries? with
  | none => exact atomic_sourced hs (.wrongType s v _)
  | some data =>
    exact items_sourced (fun p hp => h p.1 (objectItems_parts shape catchall data p hp) p.2)
      fun rs hrs => .of_result (object_sourced hs hrs _ policy _ v _)

theorem arrayMeaning_sourced {element : Schema Value} (h : ∀ w, Sources P (recur element w)) :
    Sources P (Meaning.array ctx recur s element v) := by
  unfold Meaning.array
  cases v.items? with
  | none => exact atomic_sourced hs (.wrongType s v _)
  | some vs =>
    refine items_sourced (fun p hp => ?_) fun rs hrs => .of_result (indexed_sourced hrs)
    obtain ⟨w, -, rfl⟩ := List.mem_map.1 hp
    exact h w

theorem tupleMeaning_sourced {required : Except Fault Nat} {schemas : List (Schema Value)}
    {rest : Option (Schema Value)}
    (h : ∀ t ∈ schemas ++ rest.toList, ∀ w, Sources P (recur t w)) :
    Sources P (Meaning.tuple ctx recur required s schemas rest v) := by
  unfold Meaning.tuple
  cases v.items? with
  | none => exact atomic_sourced hs (.wrongType s v _)
  | some vs =>
    refine .bind fun n _ => ?_
    cases hlength : Structure.tupleLength n schemas.length rest.isSome vs.length with
    | some detail => exact atomic_sourced hs (.failed s v (tupleLength_flat hlength))
    | none =>
      exact items_sourced (fun p hp => h p.1 (tupleItems_parts rest schemas vs p hp) p.2)
        fun rs hrs => .of_result (indexed_sourced hrs)

theorem recordMeaning_sourced {keyType valueType : Schema Value}
    (hkey : ∀ w, Sources P (recur keyType w)) (hvalue : ∀ w, Sources P (recur valueType w)) :
    Sources P (Meaning.record ctx recur s keyType valueType v) := by
  unfold Meaning.record
  cases v.entries? with
  | none => exact atomic_sourced hs (.wrongType s v _)
  | some data =>
    dsimp only
    split
    · split
      · exact .error
      · refine items_sourced (fun p hp => ?_) fun rs hrs =>
          .of_result (enumeratedRecord_sourced hs hrs _ v data)
        obtain ⟨k, -, rfl⟩ := List.mem_map.1 hp
        exact hvalue _
    · refine items_sourced (fun p hp => ?_) fun rs hrs r =>
        entries_sourced (recordReport_sourced hs) hrs (.ok v)
      rcases entryItems_parts keyType valueType data p hp with h | h <;> rw [h]
      · exact hkey _
      · exact hvalue _

theorem mapMeaning_sourced {keyType valueType : Schema Value}
    (hkey : ∀ w, Sources P (recur keyType w)) (hvalue : ∀ w, Sources P (recur valueType w)) :
    Sources P (Meaning.map ctx recur s keyType valueType v) := by
  unfold Meaning.map
  cases v.entries? with
  | none => exact atomic_sourced hs (.wrongType s v _)
  | some data =>
    refine items_sourced (fun p hp => ?_) fun rs hrs r =>
      entries_sourced (mapReport_sourced hs) hrs (.ok v)
    rcases entryItems_parts keyType valueType data p hp with h | h <;> rw [h]
    · exact hkey _
    · exact hvalue _

theorem setMeaning_sourced {element : Schema Value} (h : ∀ w, Sources P (recur element w)) :
    Sources P (Meaning.set ctx recur s element v) := by
  unfold Meaning.set
  split
  case h_3 => exact atomic_sourced hs (.wrongType s _ _)
  all_goals
    refine items_sourced (fun p hp => ?_) fun rs hrs r => set_sourced hrs
    obtain ⟨w, -, rfl⟩ := List.mem_map.1 hp
    exact h w

theorem discriminatedMeaning_sourced {schemas : List (Schema Value)} {discriminator : Value}
    {table : List (Value × Nat)} (h : ∀ t ∈ schemas, ∀ w, Sources P (recur t w)) :
    Sources P (Meaning.discriminated σ recur s schemas discriminator table v) := by
  unfold Meaning.discriminated
  cases v.entries? with
  | none => exact atomic_sourced hs (.wrongType s v _)
  | some data =>
    refine .bind fun k _ => ?_
    dsimp only
    cases hoption : pickOption schemas table ((data.find? k).getD .missing) with
    | some option => exact h option (pickOption_mem hoption) v
    | none => exact .of_result (.one ⟨hs, trivial⟩)

end

theorem caught_sourced {fallback : Value} {m : Except Fault Result} (h : Sources P m) :
    Sources P (m >>= Meaning.caught host σ ctx fallback v) := by
  refine .bind fun r hr => ?_
  unfold Meaning.caught
  split
  · exact .of_result (h r hr)
  · split
    · exact .bind fun issues _ => .bind fun q _ => .of_result (.ok _)
    · exact .of_result (.ok fallback)

/-- All schemas that are reached, and their checks, satisfy `P`, and so does whatever is named by
issues that other functions report. -/
structure Schema.Reports (host : Host) (σ : Session) (P : Value → Prop) (s : Schema Value) :
    Prop where
  sources : ∀ t, s.Reaches host σ t → P (.schema t) ∧ ∀ c ∈ t.checks, P c
  evaluators : ∀ t, s.Reaches host σ t → ∀ fn, σ.kinds.evaluator? t.kind = .ok fn →
    fn ≠ .builtin .evaluateNode → ∀ v, Sources P (Meaning.evaluator host σ fn t v)
  checks : ∀ t, s.Reaches host σ t → ∀ c, .check c ∈ t.checks → ∀ fn, c.rule ≠ .superRefinement fn
  transforms : ∀ t, s.Reaches host σ t → ∀ fn, t.form = .transform fn →
    ∀ call r, (host.start fn call).answer σ = .ok (.ready r) → r.valid = true

/-- What a schema finds by its form is reported by itself or by what it holds. -/
theorem form_sourced {s₀ : Schema Value} (hreports : s₀.Reports host σ P) (hs : s₀.Reaches host σ s)
    (hP : P (.schema s)) (h : ∀ t, s₀.Reaches host σ t → ∀ w, Sources P (recur t w))
    (fuel : Nat) : Sources P (Meaning.form host σ ctx thorough recur fuel s v) := by
  have hparts : ∀ t ∈ s.form.parts, ∀ w, Sources P (recur t w) := fun t ht => h t (.part hs ht)
  unfold Meaning.form
  cases hform : s.form with
  | string coerce => exact atomic_sourced hP (require_atomic ..)
  | format f coerce abort => exact atomic_sourced hP (require_atomic ..)
  | number coerce => exact atomic_sourced hP (number_atomic ..)
  | integer coerce abort => exact atomic_sourced hP (number_atomic ..)
  | boolean coerce => exact atomic_sourced hP (require_atomic ..)
  | date coerce => exact atomic_sourced hP (date_atomic ..)
  | null => exact atomic_sourced hP (require_atomic ..)
  | any => exact .of_result (.ok v)
  | unknown => exact .of_result (.ok v)
  | never => exact atomic_sourced hP (.wrongType s v _)
  | literal values => exact atomic_sourced hP (literal_atomic ..)
  | enumeration entries cls => exact atomic_sourced hP (enumeration_atomic ..)
  | object shape policy catchall =>
    exact objectMeaning_sourced hP fun t ht => hparts t (by rwa [hform])
  | array element => exact arrayMeaning_sourced hP (hparts element (by simp [hform, Form.parts]))
  | tuple schemas rest => exact tupleMeaning_sourced hP fun t ht => hparts t (by rwa [hform])
  | record k w =>
    exact recordMeaning_sourced hP (hparts k (by simp [hform, Form.parts]))
      (hparts w (by simp [hform, Form.parts]))
  | map k w =>
    exact mapMeaning_sourced hP (hparts k (by simp [hform, Form.parts]))
      (hparts w (by simp [hform, Form.parts]))
  | set element => exact setMeaning_sourced hP (hparts element (by simp [hform, Form.parts]))
  | union schemas =>
    refine .bind fun rs hrs => .of_result (unionResult_sourced hP ?_ v)
    exact options_sourced (fun t ht => hparts t (by rwa [hform]) v) hrs
  | discriminatedUnion schemas d table =>
    exact discriminatedMeaning_sourced hP fun t ht => hparts t (by rwa [hform])
  | intersection l r =>
    refine items_sourced (fun p hp => ?_) fun rs hrs q => intersection_sourced hrs
    rcases List.mem_pair.1 hp with rfl | rfl
    · exact hparts l (by simp [hform, Form.parts]) v
    · exact hparts r (by simp [hform, Form.parts]) v
  | optional inner =>
    have hinner := hparts inner (by simp [hform, Form.parts])
    dsimp only
    split
    · exact .of_result (.ok _)
    · exact hinner v
  | nullable inner =>
    have hinner := hparts inner (by simp [hform, Form.parts])
    dsimp only
    split
    · exact .of_result (.ok _)
    · exact hinner v
  | default inner d =>
    have hinner := hparts inner (by simp [hform, Form.parts])
    dsimp only
    split
    · exact .bind fun w _ => .of_result (.ok w)
    · exact hinner v
  | prefault inner d =>
    have hinner := hparts inner (by simp [hform, Form.parts])
    dsimp only
    split
    · exact .bind fun w _ => hinner w
    · exact hinner v
  | catching inner fallback => exact caught_sourced (hparts inner (by simp [hform, Form.parts]) v)
  | readonly inner =>
    refine .bind fun r hr => ?_
    split
    · exact .of_result (.ok _)
    · exact .of_result (hparts inner (by simp [hform, Form.parts]) v r hr)
  | promise inner =>
    have hinner := hparts inner (by simp [hform, Form.parts])
    dsimp only
    split
    · exact .error
    · exact hinner v
  | transform fn =>
    exact fun r hr => .of_atomic hP (promptly_atomic _ (hreports.transforms s hs fn hform _) hr)
  | pipe source target =>
    refine .bind fun r hr => ?_
    split
    · exact hparts target (by simp [hform, Form.parts]) r.value
    · exact .of_result (hparts source (by simp [hform, Form.parts]) v r hr)
  | lazy getter name => exact .bind fun t ht => h t (.lazily hs hform ht) v
  | custom fn params => exact fun r hr => .of_atomic hP (custom_atomic hr)
  | generic => exact .error

end

/-- Every issue of the meaning of a schema, at every depth of nesting, names a source that
satisfies `P`. -/
theorem Schema.Reports.sourced {P : Value → Prop} {ctx : Context} {thorough : Bool}
    {s₀ : Schema Value} (h : s₀.Reports host σ P) (fuel : Nat) : ∀ s, s₀.Reaches host σ s → ∀ v,
      Sources P (meaning host σ ctx thorough fuel s v) := by
  induction fuel with
  | zero => exact fun s _ v => .error
  | succ fuel ih =>
    intro s hs v
    obtain ⟨hself, hchecks⟩ := h.sources s hs
    have hform : Sources P (Meaning.form host σ ctx thorough (meaning host σ ctx thorough fuel) fuel s v) :=
      form_sourced h hs hself ih fuel
    have hfurther := h.evaluators s hs
    rw [meaning]
    refine .bind fun fn hfn => .bind fun r hr => ?_
    have hr : r.Sourced P := by
      split at hr
      · exact hform r hr
      · next hne => exact hfurther _ hfn hne v r hr
    unfold Meaning.checks
    split
    · unfold Schema.allChecks
      split
      · refine checksFrom_sourced (fun c hc => h.checks s hs c ?_) ?_ hr
        · simpa using hc
        · exact List.forall_mem_cons.2 ⟨hself, hchecks⟩
      · exact checksFrom_sourced (h.checks s hs) hchecks hr
    · exact .of_result hr

/-- Every issue of the meaning of a plain schema, at every depth of nesting, is reported by a
schema that it reaches or by a check of one. -/
theorem meaning_sourced {P : Value → Prop} {ctx : Context} {thorough : Bool} {s₀ : Schema Value}
    (hplain : s₀.IsPlain host σ) (hP : ∀ t, s₀.Reaches host σ t → P (.schema t) ∧ ∀ c ∈ t.checks, P c)
    (fuel : Nat) : ∀ s, s₀.Reaches host σ s → ∀ v,
      Sources P (meaning host σ ctx thorough fuel s v) :=
  Schema.Reports.sourced ⟨hP, fun t ht fn hfn hne => absurd (hplain.evaluators t ht fn hfn) hne,
    hplain.checks, hplain.transforms⟩ fuel

/-! ## Providers that answer -/

/-- The provider answers every issue, if only to decline. -/
def Resolution.Answers (host : Host) (σ : Session) (provider : Value) : Prop :=
  ∀ i, ∃ o, (Resolution.consult host provider i).answer σ = .ok o

/-- The provider of a source, if it has one, answers every issue. -/
def Value.SourceAnswers (host : Host) (σ : Session) : Value → Prop
  | .schema s => Resolution.Answers host σ s.error
  | .check c => Resolution.Answers host σ c.error
  | _ => True

/-- All message providers that a parse can ask answer every issue: those of the schemas that are
reached and of their checks, of the parse, and of the session. -/
structure Schema.Answers (host : Host) (σ : Session) (ctx : Context) (s : Schema Value) :
    Prop where
  schemas : ∀ t, s.Reaches host σ t → Resolution.Answers host σ t.error
  checks : ∀ t, s.Reaches host σ t → ∀ c ∈ t.checks, c.SourceAnswers host σ
  parse : Resolution.Answers host σ ctx.error
  config : Resolution.Answers host σ σ.config.customError
  locale : Resolution.Answers host σ σ.config.localeError

namespace Resolution

variable {ctx : Context} {I : Session → Prop}

theorem Answers.null : Answers host σ .null := fun _ => ⟨_, rfl⟩

theorem firstOffer_answers (hfixed : FixedProviders host I) (hσ : I σ) (i : Issue Value)
    {ps : List Value} (h : ∀ p ∈ ps, Answers host σ p) :
    ∃ text, (firstOffer host i ps).Gives I (.ok text) := by
  induction ps with
  | nil => exact ⟨_, .pure⟩
  | cons p ps ih =>
    obtain ⟨o, ho⟩ := h p (List.mem_cons_self ..) i
    have hconsult := (consult_fixed hfixed p i).gives hσ
    rw [ho] at hconsult
    obtain ⟨text, htext⟩ := ih fun q hq => h q (List.mem_cons_of_mem _ hq)
    cases o with
    | none => exact ⟨text, hconsult.next_ok htext⟩
    | some given => exact ⟨given, hconsult.next_ok .pure⟩

/-- Issues from these sources get messages. -/
def Messages (host : Host) (ctx : Context) (config : Config) (I : Session → Prop)
    (P : Value → Prop) : Prop :=
  ∀ i : Issue Value, P i.source → ∃ text, (message host ctx config i).Gives I (.ok text)

variable {P : Value → Prop} {config : Config}

mutual

theorem finalizeOne_answers (hP : Messages host ctx config I P) : (i : Issue Value) →
    i.Sourced P → ∃ j, (finalizeOne host ctx config i).Gives I (.ok j)
  | ⟨path, text, input, source, detail⟩, h => by
    obtain ⟨d, hd⟩ := finalizeDetail_answers hP detail h.2
    unfold finalizeOne
    split
    · obtain ⟨w, hw⟩ := hP ⟨path, .null, input, source, detail⟩ h.1
      exact ⟨_, Run.Gives.next_ok hw.map (hd.next_ok .pure)⟩
    · exact ⟨_, hd.next_ok .pure⟩
termination_by structural x => x

theorem finalizeDetail_answers (hP : Messages host ctx config I P) :
    (d : Detail Value (Issue Value)) → detailSourced P d →
    ∃ e, (finalizeDetail host ctx config d).Gives I (.ok e)
  | .invalidUnion groups _ _, h => by
    obtain ⟨gs, hgs⟩ := finalizeGroups_answers hP groups h
    exact ⟨_, hgs.next_ok .pure⟩
  | .invalidKey _ issues, h => by
    obtain ⟨is, his⟩ := finalize_answers hP issues h
    exact ⟨_, his.next_ok .pure⟩
  | .invalidElement _ _ issues, h => by
    obtain ⟨is, his⟩ := finalize_answers hP issues h
    exact ⟨_, his.next_ok .pure⟩
  | .unspecified, _ => ⟨_, .pure⟩
  | .invalidType .., _ => ⟨_, .pure⟩
  | .tooBig .., _ => ⟨_, .pure⟩
  | .tooSmall .., _ => ⟨_, .pure⟩
  | .invalidFormat .., _ => ⟨_, .pure⟩
  | .notMultipleOf .., _ => ⟨_, .pure⟩
  | .unrecognizedKeys .., _ => ⟨_, .pure⟩
  | .invalidValue .., _ => ⟨_, .pure⟩
  | .custom .., _ => ⟨_, .pure⟩
termination_by structural x => x

/-- Issues from such sources get their words. -/
theorem finalize_answers (hP : Messages host ctx config I P) : (is : List (Issue Value)) →
    allSourced P is → ∃ js, (finalize host ctx config is).Gives I (.ok js)
  | [], _ => ⟨_, .pure⟩
  | i :: is, h => by
    obtain ⟨j, hj⟩ := finalizeOne_answers hP i h.1
    obtain ⟨js, hjs⟩ := finalize_answers hP is h.2
    exact ⟨_, hj.next_ok (hjs.next_ok .pure)⟩
termination_by structural x => x

theorem finalizeGroups_answers (hP : Messages host ctx config I P) :
    (gs : List (List (Issue Value))) → groupsSourced P gs →
    ∃ hs, (finalizeGroups host ctx config gs).Gives I (.ok hs)
  | [], _ => ⟨_, .pure⟩
  | g :: gs, h => by
    obtain ⟨k, hk⟩ := finalize_answers hP g h.1
    obtain ⟨ks, hks⟩ := finalizeGroups_answers hP gs h.2
    exact ⟨_, hk.next_ok (hks.next_ok .pure)⟩
termination_by structural x => x

end

end Resolution

/-- The message providers of the parse and of the session answer every issue. -/
structure Context.Answers (host : Host) (σ : Session) (ctx : Context) : Prop where
  parse : Resolution.Answers host σ ctx.error
  config : Resolution.Answers host σ σ.config.customError
  locale : Resolution.Answers host σ σ.config.localeError

theorem Context.Answers.messages {ctx : Context} {I : Session → Prop} (h : ctx.Answers host σ)
    (hfixed : Resolution.FixedProviders host I) (hσ : I σ) :
    Resolution.Messages host ctx σ.config I (Value.SourceAnswers host σ) := by
  intro i hi
  refine Resolution.firstOffer_answers hfixed hσ i fun p hp => ?_
  simp only [List.mem_cons, List.not_mem_nil, or_false] at hp
  rcases hp with rfl | rfl | rfl | rfl
  · unfold Resolution.sourceError
    split
    · rename_i hsource
      rwa [hsource] at hi
    · rename_i hsource
      rwa [hsource] at hi
    · exact Resolution.Answers.null
  · exact h.parse
  · exact h.config
  · exact h.locale

theorem conclude_valid {ctx : Context} {r : Result} (h : r.valid = true) :
    conclude host ctx r = pure (.accepted r.value) :=
  if_pos h

theorem conclude_invalid {ctx : Context} {r : Result} (h : ¬r.valid = true)
    {js : List (Issue Value)}
    (hwords : (Resolution.finalizeActive host ctx r.issues).answer σ = .ok js) :
    (conclude host ctx r).answer σ = .ok (.rejected js) := by
  have hconclude : conclude host ctx r =
      Parsed.rejected <$> Resolution.finalizeActive host ctx r.issues := by
    unfold conclude
    rw [if_neg h, map_eq_pure_bind]
  rw [hconclude, Run.answer_map, hwords]
  rfl

/-- A parse whose issues are sourced can be concluded when the providers answer. -/
theorem Context.Answers.conclude {ctx : Context} (h : ctx.Answers host σ) {s : Schema Value}
    (hpure : s.IsPure host σ) {r : Result} (hr : r.Sourced (Value.SourceAnswers host σ)) :
    ∃ q, (Assay.conclude host ctx r).answer σ = .ok q := by
  by_cases hvalid : r.valid = true
  · exact ⟨.accepted r.value, by rw [conclude_valid hvalid]; rfl⟩
  · have hhere := hpure.settled.here
    obtain ⟨js, hjs⟩ := Resolution.finalize_answers (h.messages hpure.wording_fixed hhere) r.issues
      (allSourced_iff.2 hr)
    exact ⟨.rejected js, conclude_invalid hvalid (hjs.answer hhere)⟩

theorem Schema.Answers.context {ctx : Context} {s : Schema Value} (hs : s.Answers host σ ctx) :
    ctx.Answers host σ :=
  ⟨hs.parse, hs.config, hs.locale⟩

end Assay
