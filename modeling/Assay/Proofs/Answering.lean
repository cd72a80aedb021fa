import Assay.Proofs.Displaying
import Assay.Proofs.IssuePaths
import Assay.Proofs.Sources

/-!
# Parses that answer

A schema that calls nothing, merges nothing and waits for nothing (`Schema.IsInert`) has only one
way to end a parse with a fault: to look up or collect what cannot be a key. If schemas of keys make
possible keys of possible keys, and schemas of members likewise, as scalars do
(`MakesOnly.hashable_of_isScalar`), its evaluation answers (`meaning_answers`), and so does every
parse of a value whose own keys and members can be such (`failures_are_issues`): what does not fit
is reported as an issue.
-/

namespace Assay

open Structure Value

variable {host : Host} {σ : Session} {ctx : Context} {K : Keying}

/-- Mappings and sets that there can be. -/
def Keying.hashing : Keying :=
  ⟨fun k => k.isHashable = true, fun w => w.isHashable = true, fun _ => rfl⟩

/-- The form calls nothing, merges nothing and waits for nothing. -/
def Form.isInert : Form Value (Schema Value) → Bool
  | .intersection .. | .promise _ | .transform _ | .lazy .. | .custom .. | .generic => false
  | _ => true

/-- Whatever the schema reaches is evaluated by its form, which is inert, and has no checks; what
stands in for absent values is there. -/
structure Schema.IsInert (host : Host) (σ : Session) (s : Schema Value) : Prop where
  kinds : ∀ t, s.Reaches host σ t → σ.kinds.evaluator? t.kind = .ok (.builtin .evaluateNode)
  checks : ∀ t, s.Reaches host σ t → t.checks = []
  forms : ∀ t, s.Reaches host σ t → t.form.isInert = true
  standins : ∀ t, s.Reaches host σ t → ∀ d, t.form.default? = some d →
    ∃ w, (defaultValue host d).answer σ = .ok w

theorem Schema.IsInert.not_lazy {s : Schema Value} (h : s.IsInert host σ) :
    ∀ t, s.Reaches host σ t → ∀ getter name, t.form ≠ .lazy getter name := by
  intro t ht getter name hform
  have hinert := h.forms t ht
  rw [hform] at hinert
  cases hinert

/-- All keys and members of the class can be such. -/
structure Keying.IsPossible (K : Keying) : Prop where
  key : ∀ k, K.key k → k.isHashable = true
  member : ∀ w, K.member w → w.isHashable = true

/-! ## Absence -/

section

variable {I : Session → Prop}

theorem anySchema_gives {test : Schema Value → Run Bool} {schemas : List (Schema Value)}
    (h : ∀ t ∈ schemas, ∃ b, (test t).Gives I (.ok b)) :
    ∃ b, (anySchema test schemas).Gives I (.ok b) := by
  induction schemas with
  | nil => exact ⟨false, .pure⟩
  | cons t schemas ih =>
    obtain ⟨ht, hts⟩ := List.forall_mem_cons.1 h
    obtain ⟨b, hb⟩ := ht
    cases b with
    | true => exact ⟨true, hb.next_ok .pure⟩
    | false =>
      obtain ⟨b', hb'⟩ := ih hts
      exact ⟨b', hb.next_ok hb'⟩

/-- Where no schema is lazy it is found out within its depth whether one accepts an absent value. -/
theorem acceptsAbsent_gives {s₀ : Schema Value}
    (h : ∀ t, s₀.Reaches host σ t → ∀ getter name, t.form ≠ .lazy getter name) (fuel : Nat) :
    ∀ t, s₀.Reaches host σ t → t.depth < fuel →
      ∃ b, (t.acceptsAbsent host fuel).Gives I (.ok b) := by
  -- The question goes to parts only, which are less deep.
  induction fuel with
  | zero => exact fun t _ hdepth => nomatch hdepth
  | succ fuel ih =>
    intro t ht hdepth
    have hpart : ∀ u ∈ t.form.parts, ∃ b, (u.acceptsAbsent host fuel).Gives I (.ok b) :=
      fun u hu => ih u (.part ht hu)
        (Nat.lt_of_lt_of_le (Schema.depth_part_lt hu) (Nat.le_of_lt_succ hdepth))
    have hlazy := h t ht
    unfold Schema.acceptsAbsent
    cases hform : t.form <;> rw [hform] at hpart hlazy
    case optional | default | prefault => exact ⟨true, .pure⟩
    case nullable inner | readonly inner | catching inner _ =>
      exact hpart inner (List.mem_singleton_self _)
    case pipe source _ => exact hpart source (List.mem_cons_self ..)
    case union options | discriminatedUnion options _ _ => exact anySchema_gives hpart
    case lazy getter name => exact absurd rfl (hlazy getter name)
    all_goals exact ⟨false, .pure⟩

theorem requiredPositions_gives {acceptsAbsent : Schema Value → Run Bool}
    {schemas : List (Schema Value)}
    (h : ∀ t ∈ schemas, ∃ b, (acceptsAbsent t).Gives I (.ok b)) :
    ∃ n, (requiredPositions acceptsAbsent schemas).Gives I (.ok n) := by
  induction schemas with
  | nil => exact ⟨0, .pure⟩
  | cons t schemas ih =>
    obtain ⟨ht, hts⟩ := List.forall_mem_cons.1 h
    obtain ⟨b, hb⟩ := ht
    cases b with
    | true =>
      obtain ⟨n, hn⟩ := ih hts
      exact ⟨n, hb.next_ok hn⟩
    | false => exact ⟨_, hb.next_ok .pure⟩

end

/-! ## Positions -/

section

variable {recur : Schema Value → Value → Except Fault Result} {s : Schema Value} {v : Value}

/-- There is a result. -/
abbrev Comes (m : Except Fault Result) : Prop := ∃ r, m = .ok r

theorem Comes.bind {α : Type} {x : Except Fault α} {f : α → Except Fault Result} {a : α}
    (hx : x = .ok a) (h : Comes (f a)) : Comes (x >>= f) := by
  rw [hx]
  exact h

/-- Where every position has a result there are results. -/
theorem items_come {ps : List (Schema Value × Value)} (h : ∀ p ∈ ps, Comes (recur p.1 p.2)) :
    ∃ rs, Meaning.items recur ctx ps = .ok rs := by
  unfold Meaning.items
  split
  · induction ps with
    | nil => exact ⟨[], rfl⟩
    | cons p ps ih =>
      obtain ⟨⟨r, hr⟩, hps⟩ := List.forall_mem_cons.1 h
      obtain ⟨rs, hrs⟩ := ih hps
      rw [Meaning.inOrder, hr]
      dsimp only [bind, Except.bind]
      rw [hrs]
      split <;> exact ⟨_, rfl⟩
  · induction ps with
    | nil => exact ⟨[], rfl⟩
    | cons p ps ih =>
      obtain ⟨⟨r, hr⟩, hps⟩ := List.forall_mem_cons.1 h
      obtain ⟨rs, hrs⟩ := ih hps
      rw [Meaning.each, hr]
      dsimp only [bind, Except.bind]
      rw [hrs]
      exact ⟨_, rfl⟩

theorem Comes.items {ps : List (Schema Value × Value)} {f : List Result → Except Fault Result}
    (h : ∀ p ∈ ps, Comes (recur p.1 p.2))
    (hf : ∀ rs, Meaning.items recur ctx ps = .ok rs → Comes (f rs)) :
    Comes (Meaning.items recur ctx ps >>= f) := by
  obtain ⟨rs, hrs⟩ := items_come h
  exact .bind hrs (hf rs hrs)

/-- Keys of the class can be put into the output. -/
theorem entries_come (hK : K.IsPossible) {report : EntryReport} {keys : List Value}
    {rs : List Result} (h : InTurn (KeepsKey K) (Result.Keyed K) rs) (acc : Result)
    (output : Entries) : Comes (entries report keys rs acc output) := by
  induction h generalizing keys acc output with
  | none => cases keys <;> exact ⟨_, rfl⟩
  | key _ => cases keys <;> exact ⟨_, rfl⟩
  | @entry kr vr rest hkr _ _ ih =>
    cases keys with
    | nil => exact ⟨_, rfl⟩
    | cons k keys =>
      -- An entry is added if its key and its value have no issues.
      have hadded : ∃ output', addOutputs output kr vr = .ok output' := by
        unfold addOutputs insertComputed
        split
        · rename_i hboth
          have hkey := hK.key _ (hkr.output (Bool.and_eq_true_iff.1 hboth).1)
          rw [if_pos hkey]
          exact ⟨_, rfl⟩
        · exact ⟨_, rfl⟩
      obtain ⟨output', houtput⟩ := hadded
      rw [entries, houtput]
      exact ih _ _

theorem entriesMeaning_comes (hK : K.IsPossible) {k x : Schema Value} {report : EntryReport}
    {data : Entries} (hdata : ∀ e ∈ data, K.Entry e.1 e.2) (hk : Keeps K recur k)
    (hx : Keeps K recur x)
    (hkeys : ∀ w u, K.key w → w.Keyed K → recur k w = .ok (.ok u) → K.key u)
    (h : ∀ t ∈ [k, x], ∀ w, w.Keyed K → Comes (recur t w)) :
    Comes (Meaning.items recur ctx (entryItems k x data) >>= fun rs =>
      entries report (data.map (·.1)) rs ⟨v, []⟩ []) := by
  refine .items (fun p hp => ?_) fun rs hrs =>
    entries_come hK (entries_inTurn hdata hk hx hkeys hrs) _ _
  obtain ⟨e, he, hp⟩ := List.mem_flatMap.1 hp
  rcases List.mem_pair.1 hp with rfl | rfl
  · exact h k (by simp) _ (hdata e he).inKey
  · exact h x (by simp) _ (hdata e he).inValue

theorem recordMeaning_comes (hK : K.IsPossible) {k x : Schema Value} (hv : v.Keyed K)
    (hlisted : ∀ a ∈ (Construct.enumerated? k).getD [], K.key a ∧ a.Keyed K)
    (hk : Keeps K recur k) (hx : Keeps K recur x)
    (hkeys : ∀ w u, K.key w → w.Keyed K → recur k w = .ok (.ok u) → K.key u)
    (h : ∀ t ∈ [k, x], ∀ w, w.Keyed K → Comes (recur t w)) :
    Comes (Meaning.record ctx recur s k x v) := by
  unfold Meaning.record
  cases hes : v.entries? with
  | none => exact ⟨_, rfl⟩
  | some data =>
    have hdata := hv.entries hes
    dsimp only
    split
    · rename_i allowed hallowed
      rw [hallowed] at hlisted
      -- Listed keys are looked up before anything is read.
      have hhashable : Value.areHashable allowed = true :=
        Meaning.areHashable_iff.2 fun a ha => hK.key a (hlisted a ha).1
      rw [hhashable]
      refine .items (fun p hp => ?_) fun _ _ => ⟨_, rfl⟩
      obtain ⟨a, -, rfl⟩ := List.mem_map.1 hp
      exact h x (by simp) _ (keyed_find? hdata a)
    · exact entriesMeaning_comes hK hdata hk hx hkeys h

theorem mapMeaning_comes (hK : K.IsPossible) {k x : Schema Value} (hv : v.Keyed K)
    (hk : Keeps K recur k) (hx : Keeps K recur x)
    (hkeys : ∀ w u, K.key w → w.Keyed K → recur k w = .ok (.ok u) → K.key u)
    (h : ∀ t ∈ [k, x], ∀ w, w.Keyed K → Comes (recur t w)) :
    Comes (Meaning.map ctx recur s k x v) := by
  unfold Meaning.map
  cases hes : v.entries? with
  | none => exact ⟨_, rfl⟩
  | some data => exact entriesMeaning_comes hK (hv.entries hes) hk hx hkeys h

theorem setMeaning_comes (hK : K.IsPossible) {element : Schema Value} (hv : v.Keyed K)
    (hmembers : ∀ w u, K.member w → w.Keyed K → recur element w = .ok (.ok u) → K.member u)
    (h : ∀ w, w.Keyed K → Comes (recur element w)) :
    Comes (Meaning.set ctx recur s element v) := by
  have hset {vs : List Value} (hvs : ∀ w ∈ vs, K.member w ∧ w.Keyed K) :
      Comes (Meaning.items recur ctx ((Value.listed vs).map fun w => (element, w)) >>=
        Structure.set) := by
    refine .items (fun p hp => ?_) fun rs hrs => ?_
    · obtain ⟨w, hw, rfl⟩ := List.mem_map.1 hp
      exact h w (hvs w (mem_listed.1 hw)).2
    · -- Outputs are collected when everything is read, those without issues only.
      have hhashable : Value.areHashable ((rs.filter Result.valid).map (·.value)) = true := by
        refine Meaning.areHashable_iff.2 fun w hw => ?_
        obtain ⟨q, hq, rfl⟩ := List.mem_map.1 hw
        obtain ⟨hmem, hvalid⟩ := List.mem_filter.1 hq
        exact hK.member _ (members_kept hvs hmembers hrs q hmem hvalid)
      unfold Structure.set
      dsimp only
      rw [if_pos hhashable]
      exact ⟨_, rfl⟩
  unfold Meaning.set
  split
  · exact hset (hv.members rfl)
  · exact hset (hv.members rfl)
  · exact ⟨_, rfl⟩

theorem discriminatedMeaning_comes {schemas : List (Schema Value)} {d : Value}
    {table : List (Value × Nat)} (hd : d.isHashable = true)
    (h : ∀ t ∈ schemas, Comes (recur t v)) :
    Comes (Meaning.discriminated σ recur s schemas d table v) := by
  unfold Meaning.discriminated
  split
  · exact ⟨_, rfl⟩
  · have hkey : (Construct.hashable d).answer σ = .ok d := by
      unfold Construct.hashable
      rw [if_pos hd]
      rfl
    refine .bind hkey ?_
    dsimp only
    split
    · exact h _ (pickOption_mem ‹_›)
    · exact ⟨_, rfl⟩

end

/-! ## Forms -/

/-- An inert schema reads a keyed value to the end if its parts do. -/
theorem form_comes (hK : K.IsPossible) {s₀ s : Schema Value} (hinert : s₀.IsInert host σ)
    (hkeeps : s₀.KeepsTo host σ ctx K) (hs : s₀.Reaches host σ s) {fuel : Nat}
    (hdepth : s.depth ≤ fuel) {v : Value} (hv : v.Keyed K)
    (h : ∀ t ∈ s.form.parts, ∀ w, w.Keyed K → Comes (meaning host σ ctx false fuel t w)) :
    Comes (Meaning.form host σ ctx false (meaning host σ ctx false fuel) fuel s v) := by
  have hkept : ∀ t ∈ s.form.parts, Keeps K (meaning host σ ctx false fuel) t :=
    fun t ht => meaning_keyed hkeeps fuel t (.part hs ht)
  have hnamed := hkeeps.named s hs
  have hform := hinert.forms s hs
  unfold Meaning.form
  cases hcase : s.form <;> rw [hcase] at h hkept hnamed hform
  case object shape policy catchall =>
    dsimp only
    unfold Meaning.object
    cases hes : v.entries? with
    | none => exact ⟨_, rfl⟩
    | some data =>
      have hplaces := objectItems_keyed catchall (hv.entries hes) hnamed
      refine .items (fun p hp => ?_) fun _ _ => ⟨_, rfl⟩
      have hpart := h p.1 (objectItems_parts shape catchall data p hp)
      obtain ⟨q, hq, rfl⟩ := List.mem_map.1 hp
      exact hpart _ (hplaces q hq).2
  case array element =>
    dsimp only
    unfold Meaning.array
    cases hvs : v.items? with
    | none => exact ⟨_, rfl⟩
    | some vs =>
      refine .items (fun p hp => ?_) fun _ _ => ⟨_, rfl⟩
      obtain ⟨w, hw, rfl⟩ := List.mem_map.1 hp
      exact h element (List.mem_singleton_self _) w (hv.items hvs w hw)
  case tuple schemas rest =>
    dsimp only
    unfold Meaning.tuple
    cases hvs : v.items? with
    | none => exact ⟨_, rfl⟩
    | some vs =>
      have habsent : ∀ t ∈ schemas.reverse,
          ∃ b, (t.acceptsAbsent host fuel).Gives (fun τ => τ = σ) (.ok b) := by
        intro t ht
        have hpart : t ∈ s.form.parts := by
          rw [hcase]
          exact List.mem_append_left _ (List.mem_reverse.1 ht)
        exact acceptsAbsent_gives hinert.not_lazy fuel t (.part hs hpart)
          (Nat.lt_of_lt_of_le (Schema.depth_part_lt hpart) hdepth)
      obtain ⟨n, hn⟩ := requiredPositions_gives habsent
      refine .bind (hn.answer rfl) ?_
      split
      · exact ⟨_, rfl⟩
      · refine .items (fun p hp => ?_) fun _ _ => ⟨_, rfl⟩
        exact h p.1 (tupleItems_parts rest schemas vs p hp) p.2
          (tupleItems_keyed schemas (hv.items hvs) p hp)
  case record k x =>
    exact recordMeaning_comes hK hv hnamed (hkept k (by simp [Form.parts]))
      (hkept x (by simp [Form.parts])) (hkeeps.keys s hs k x (.inl hcase) fuel) h
  case map k x =>
    exact mapMeaning_comes hK hv (hkept k (by simp [Form.parts]))
      (hkept x (by simp [Form.parts])) (hkeeps.keys s hs k x (.inr hcase) fuel) h
  case set element =>
    exact setMeaning_comes hK hv (hkeeps.members s hs element hcase fuel)
      (h element (List.mem_singleton_self _))
  case union schemas =>
    obtain ⟨rs, hrs⟩ := Meaning.options_ok fun t ht => h t ht v hv
    exact .bind hrs ⟨_, rfl⟩
  case discriminatedUnion schemas d table =>
    exact discriminatedMeaning_comes (hK.key d (hnamed d (List.mem_singleton_self d)).1)
      fun t ht => h t ht v hv
  case optional inner | nullable inner =>
    dsimp only
    split
    · exact ⟨_, rfl⟩
    · exact h inner (List.mem_singleton_self _) v hv
  case default inner d =>
    obtain ⟨w, hw⟩ := hinert.standins s hs d (by rw [hcase]; rfl)
    dsimp only
    split
    · exact .bind hw ⟨_, rfl⟩
    · exact h inner (List.mem_singleton_self _) v hv
  case prefault inner d =>
    have hdefault : s.form.default? = some d := by rw [hcase]; rfl
    obtain ⟨w, hw⟩ := hinert.standins s hs d hdefault
    dsimp only
    split
    · exact .bind hw (h inner (List.mem_singleton_self _) w (hkeeps.standins s hs d hdefault w hw))
    · exact h inner (List.mem_singleton_self _) v hv
  case catching inner fallback =>
    obtain ⟨r, hr⟩ := h inner (List.mem_singleton_self _) v hv
    refine .bind hr ?_
    unfold Meaning.caught
    rw [(hkeeps.fallbacks s hs inner fallback hcase).1]
    split <;> exact ⟨_, rfl⟩
  case readonly inner =>
    obtain ⟨r, hr⟩ := h inner (List.mem_singleton_self _) v hv
    exact .bind hr ⟨_, rfl⟩
  case pipe source target =>
    obtain ⟨r, hr⟩ := h source (List.mem_cons_self ..) v hv
    refine .bind hr ?_
    split
    · exact h target (by simp [Form.parts]) _
        ((hkept source (List.mem_cons_self ..) v r hv hr).output ‹_›)
    · exact ⟨_, rfl⟩
  case intersection | promise | transform | lazy | custom | generic => cases hform
  -- Scalars answer at once.
  all_goals exact ⟨_, rfl⟩

/-- Without further checks a format or an integer still checks itself. -/
theorem checks_come {s : Schema Value} (hs : s.checks = []) (r : Result) :
    Comes (Meaning.checks host σ ctx s r) := by
  unfold Meaning.checks Schema.allChecks
  rw [hs]
  split
  · split
    · rename_i htag
      have hcheck : Meaning.check host σ (.schema s) r.value =
          .ok (Result.of r.value (.schema s) (s.form.verdict r.value)) := if_pos htag
      rw [Meaning.checksFrom, hcheck]
      dsimp only [bind, Except.bind]
      split <;> exact ⟨_, rfl⟩
    · exact ⟨_, rfl⟩
  · exact ⟨_, rfl⟩

/-- Evaluating a keyed value against an inert schema answers, given levels for its depth. -/
theorem meaning_answers (hK : K.IsPossible) {s₀ : Schema Value} (hinert : s₀.IsInert host σ)
    (hkeeps : s₀.KeepsTo host σ ctx K) (fuel : Nat) : ∀ s, s₀.Reaches host σ s → s.depth < fuel →
      ∀ v, v.Keyed K → Comes (meaning host σ ctx false fuel s v) := by
  induction fuel with
  | zero => exact fun s _ hdepth => nomatch hdepth
  | succ fuel ih =>
    intro s hs hdepth v hv
    have hle := Nat.le_of_lt_succ hdepth
    obtain ⟨r, hr⟩ := form_comes hK hinert hkeeps hs hle hv fun t ht =>
      ih t (.part hs ht) (Nat.lt_of_lt_of_le (Schema.depth_part_lt ht) hle)
    rw [meaning]
    exact .bind (hinert.kinds s hs) (.bind hr (checks_come (hinert.checks s hs) r))

/-! ## Possible keys -/

/-- A scalar makes a possible key of a possible key, also where it converts it. -/
theorem MakesOnly.hashable_of_isScalar {t : Schema Value} (hown : t.IsOwn σ)
    (hchecks : ∀ c ∈ t.checks, c.inspects = true) (hform : t.form.isScalar = true) :
    MakesOnly host σ ctx K (fun k => k.isHashable = true) t := by
  intro fuel v w hv _ hw
  cases fuel with
  | zero => cases hw
  | succ fuel =>
    obtain ⟨u, hu, hchecked⟩ := meaning_accepts hown hw
    obtain rfl : w = u := checksFrom_inspects hchecks hchecked
    have hsame (hleft : t.form.handsOn = true) (hparts : t.form.parts = []) :
        w.isHashable = true := by
      rcases form_handsOn hleft hu with rfl | ⟨part, hpart, -⟩
      · exact hv
      · rw [hparts] at hpart
        cases hpart
    cases hcase : t.form <;> rw [hcase] at hsame hform <;> simp only [Meaning.form, hcase] at hu
    case string c | format f c a =>
      obtain ⟨s, rfl⟩ := string_ok (Except.ok.inj hu)
      rfl
    case number c | integer c a =>
      have hnumber := number_ok (Except.ok.inj hu)
      cases w <;> first | rfl | cases hnumber
    case boolean c =>
      obtain ⟨b, rfl⟩ := boolean_ok (Except.ok.inj hu)
      rfl
    case date c => rcases date_ok (Except.ok.inj hu) with ⟨d, rfl⟩ | ⟨d, rfl⟩ <;> rfl
    case null | any | unknown | never | literal => exact hsame rfl rfl
    case enumeration entries cls =>
      cases cls with
      | none => exact hsame rfl rfl
      | some c => cases hform
    all_goals cases hform

/-! ## Parses -/

theorem Schema.IsInert.isPlain {s : Schema Value} (h : s.IsInert host σ)
    (hkeeps : s.KeepsTo host σ ctx K) : s.IsPlain host σ where
  evaluators t ht fn hfn := by
    rw [h.kinds t ht] at hfn
    exact (Except.ok.inj hfn).symm
  checks t ht c hc := by
    rw [h.checks t ht] at hc
    cases hc
  transforms t ht fn hform := by
    have hinert := h.forms t ht
    rw [hform] at hinert
    cases hinert
  fallbacks t ht inner fallback hform := (hkeeps.fallbacks t ht inner fallback hform).1

/-- Parsing a value against an inert schema comes to an output or to issues, and never to a fault,
if the schemas of its keys and members make only possible keys and members of such, and all message
providers answer. -/
theorem failures_are_issues {s : Schema Value} (hpure : s.IsPure host σ)
    (hwords : s.Answers host σ ctx) (hinert : s.IsInert host σ)
    (hkeeps : s.KeepsTo host σ ctx .hashing) {v : Value} (hv : v.Keyed .hashing) :
    ∃ p, (safeParse host (ctx.mayWait false) s v).answer σ = .ok p := by
  have hpossible : Keying.hashing.IsPossible := ⟨fun _ hk => hk, fun _ hw => hw⟩
  obtain ⟨r, hr⟩ := meaning_answers hpossible hinert hkeeps s.budget s .self
    (Nat.lt_add_of_pos_right (by decide)) v hv
  have hsourced : r.Sourced (Value.SourceAnswers host σ) :=
    meaning_sourced (hinert.isPlain hkeeps)
      (fun t ht => ⟨hwords.schemas t ht, hwords.checks t ht⟩) s.budget s .self v r hr
  obtain ⟨p, hp⟩ := hwords.context.conclude hpure hsourced
  have hsettled := hpure.settled
  refine ⟨p, ?_⟩
  rw [(safeParse_gives hsettled (hpure.words_fixed _) .self v).answer hsettled.here]
  exact bind_eq_ok.2 ⟨r, hr, hp⟩

/-! ## Amounts under tuples -/

namespace Amounts

open Stock (hostThat)

theorem isInert : amounts.IsInert (hostThat false) {} where
  kinds t ht := by rcases reached_cases ht with rfl | rfl | rfl <;> rfl
  checks t ht := by rcases reached_cases ht with rfl | rfl | rfl <;> rfl
  forms t ht := by rcases reached_cases ht with rfl | rfl | rfl <;> rfl
  standins t ht := by rcases reached_cases ht with rfl | rfl | rfl <;> exact nofun

theorem answers : amounts.Answers (hostThat false) {} {} where
  schemas t ht := by rcases reached_cases ht with rfl | rfl | rfl <;> exact .null
  checks t ht := by rcases reached_cases ht with rfl | rfl | rfl <;> exact nofun
  parse := .null
  config := .null
  locale := .null

/-- A tuple that can be a key. -/
def single : Value := .tuple [.int 1]

theorem single_keyed {K : Keying} : single.Keyed K :=
  Value.keyed_of_items rfl
    (List.forall_mem_singleton.2 (Value.keyed_of_inner_eq_nil trivial rfl))

/-- Anything under lists, as which tuples are read. -/
def listed : Schema Value :=
  ⟨0, .str "map", .map ⟨1, .str "array", .array anything, [], [], .null⟩ anything, [], [], .null⟩

end Amounts

open Amounts Stock in
/-- A text under a tuple is reported. -/
theorem failures_are_issues_amounts :
    ∃ p, (safeParse (hostThat false) (Context.mayWait {} false) amounts
      (misplaced single)).answer {} = .ok p :=
  failures_are_issues isPure answers isInert (keepsTo .hashing) (misplaced_keyed rfl single_keyed)

open Amounts Stock in
/-- A schema of keys that makes a list of a tuple lets the parse end with a fault. -/
theorem failure_no_issue :
    (Value.dict [(single, .int 2)]).Keyed .hashing ∧
      (safeParse (hostThat false) (Context.mayWait {} false) listed
        (.dict [(single, .int 2)])).answer {} = .error .unsupported :=
  ⟨Value.keyed_of_entries rfl (List.forall_mem_singleton.2
    ⟨rfl, single_keyed, Value.keyed_of_inner_eq_nil trivial rfl⟩), rfl⟩

end Assay
