import Assay.Proofs.Outline
import Mathlib.Data.List.Forall2

/-!
# Abridged structures

What a structure makes of the results of its positions up to the first that fails is an abridgment
of what it makes of the results of all of them. Objects and records with enumerated keys do not
report unknown keys when they have stopped early; records and maps may be left with a key whose
value was not evaluated, and intersections with one side.
-/

namespace Assay

/-- The same options for a parse that stops at the first issue, or for one that goes on. -/
def Context.stopping (ctx : Context) (b : Bool) : Context := { ctx with abortEarly := b }

/-- Where the first has a result the second has an abridgment of it. -/
def Cuts (full early : Except Fault Result) : Prop :=
  ∀ r, full = .ok r → ∃ a, early = .ok a ∧ r.AbridgesTo a

namespace Cuts

theorem of_result {r a : Result} (h : r.AbridgesTo a) : Cuts (.ok r) (.ok a) := by
  rintro _ ⟨⟩
  exact ⟨a, rfl, h⟩

/-- What both read alike and finds at most one issue. -/
theorem of_atomic (source : Value) {m : Except Fault Result}
    (h : ∀ r, m = .ok r → r.Atomic source) : Cuts m m :=
  fun r hr => ⟨r, hr, (h r hr).abridges⟩

theorem error {f : Fault} {early : Except Fault Result} : Cuts (.error f) early :=
  fun _ h => nomatch h

/-- After a step that is the same for both. -/
theorem bind {α : Type} {x : Except Fault α} {f g : α → Except Fault Result}
    (h : ∀ a, x = .ok a → Cuts (f a) (g a)) : Cuts (x >>= f) (x >>= g) := by
  cases x with
  | error e => exact error
  | ok a => exact h a rfl

/-- After a result and its abridgment, which are one when there are no issues. -/
theorem next {m n : Except Fault Result} {f g : Result → Except Fault Result} (h : Cuts m n)
    (hvalid : ∀ r, r.valid = true → Cuts (f r) (g r))
    (hfailed : ∀ r a, r.valid = false → r.AbridgesTo a → Cuts (f r) (g a)) :
    Cuts (m >>= f) (n >>= g) := by
  cases m with
  | error e => exact error
  | ok r =>
    obtain ⟨a, rfl, ha⟩ := h r rfl
    by_cases hr : r.valid = true
    · obtain rfl := ha.eq_of_valid hr
      exact hvalid a hr
    · exact hfailed r a (Bool.eq_false_iff.2 hr) ha

end Cuts

variable {ctx : Context} {rs as : List Result}

namespace Shortens

theorem length_le (h : Shortens rs as) : as.length ≤ rs.length := by
  induction h with
  | nil => exact Nat.le_refl _
  | valid _ _ ih => exact Nat.succ_le_succ ih
  | failed _ _ => simp

/-- What is made of the results is abridged when its issues are, as the outputs are the same when
there are none. -/
theorem abridgesTo (h : Shortens rs as) {r a : Result}
    (hissues : unwordedAll false a.issues = outlineFirst r.issues)
    (hvalid : r.issues = [] → ∀ q ∈ rs, q.valid = true)
    (hvalue : as = rs → a.value = r.value) : r.AbridgesTo a :=
  .of_issues hissues fun hr => hvalue (h.eq_of_valid (hvalid hr))

end Shortens

theorem valid_of_issuesUnder {keys : List Value} (hkeys : rs.length ≤ keys.length)
    (h : Structure.issuesUnder (placedAt keys rs) = []) : ∀ r ∈ rs, r.valid = true := by
  intro r hr
  obtain ⟨i, hi, rfl⟩ := List.mem_iff_getElem.1 hr
  have hmem : (keys[i], rs[i]) ∈ placedAt keys rs := by
    rw [placedAt, List.mem_iff_getElem]
    exact ⟨i, by simp; omega, by simp⟩
  have hnil := List.flatMap_eq_nil_iff.1 h _ hmem
  exact Result.valid_iff.2 (by simpa using hnil)

/-! ## Objects -/

theorem object_abridges (h : Shortens rs as) {keys : List Value} (hkeys : rs.length ≤ keys.length)
    (s : Schema Value) (policy : UnknownKeys) (hasCatchall : Bool) (v : Value) (unknown : Entries) :
    (Structure.object s (ctx.stopping false) policy hasCatchall v unknown
        (placedAt keys rs)).AbridgesTo
      (Structure.object s (ctx.stopping true) policy hasCatchall v unknown
        (placedAt keys as)) := by
  have hissues := h.issuesUnder keys hkeys
  unfold Structure.object Context.stopping
  by_cases hnil : Structure.issuesUnder (placedAt keys rs) = []
  · -- Nothing was left out, so unknown keys are treated alike.
    obtain rfl := h.eq_of_valid (valid_of_issuesUnder hkeys hnil)
    simp only [hnil, List.isEmpty_nil, Bool.not_true, Bool.and_false, Bool.false_eq_true, if_false]
    split
    · exact Result.AbridgesTo.ok _
    · cases policy with
      | strip => exact Result.AbridgesTo.ok _
      | passthrough => exact Result.AbridgesTo.ok _
      | strict => exact Result.AbridgesTo.flat rfl
  · have hstop := unwordedAll_ne_nil hissues hnil
    simp only [Bool.false_and, Bool.false_eq_true, if_false, Bool.true_and, Bool.not_eq_true',
      List.isEmpty_eq_false_iff, if_pos hstop]
    split
    · exact .of_issues hissues fun hr => absurd hr hnil
    · cases policy with
      | strip => exact .of_issues hissues fun hr => absurd hr hnil
      | passthrough => exact .of_issues hissues fun hr => absurd hr hnil
      | strict =>
        refine .of_issues ?_ fun hr => absurd (List.append_eq_nil_iff.1 hr).1 hnil
        rw [outlineFirst_append hnil]
        exact hissues

/-! ## Sequences -/

theorem valid_of_indexed (h : Structure.issuesUnder (Structure.indexed 0 rs) = []) :
    ∀ r ∈ rs, r.valid = true := by
  rw [indexed_eq_placedAt rs 0 _ (Nat.le_refl _)] at h
  exact valid_of_issuesUnder (by simp) h

theorem Shortens.issuesIndexed (h : Shortens rs as) :
    unwordedAll false (Structure.issuesUnder (Structure.indexed 0 as)) =
      outlineFirst (Structure.issuesUnder (Structure.indexed 0 rs)) := by
  rw [indexed_eq_placedAt as 0 _ h.length_le, indexed_eq_placedAt rs 0 _ (Nat.le_refl _)]
  exact h.issuesUnder _ (by simp)

theorem array_abridges (h : Shortens rs as) :
    (Structure.array rs).AbridgesTo (Structure.array as) :=
  h.abridgesTo h.issuesIndexed valid_of_indexed fun has => by rw [has]

theorem tuple_abridges (h : Shortens rs as) (present : Nat) :
    (Structure.tuple present rs).AbridgesTo (Structure.tuple present as) :=
  h.abridgesTo h.issuesIndexed valid_of_indexed fun has => by rw [has]

/-! ## Records and maps -/

theorem enumeratedRecord_abridges (h : Shortens rs as) {allowed : List Value}
    (hallowed : rs.length ≤ allowed.length) (s : Schema Value) (v : Value) (data : Entries) :
    (Structure.enumeratedRecord s (ctx.stopping false) allowed v data
        (placedAt allowed rs)).AbridgesTo
      (Structure.enumeratedRecord s (ctx.stopping true) allowed v data (placedAt allowed as)) := by
  have hissues := h.issuesUnder allowed hallowed
  unfold Structure.enumeratedRecord Context.stopping
  by_cases hnil : Structure.issuesUnder (placedAt allowed rs) = []
  · obtain rfl := h.eq_of_valid (valid_of_issuesUnder hallowed hnil)
    simp only [hnil, List.isEmpty_nil, Bool.not_true, Bool.and_false, Bool.or_false]
    split
    · exact Result.AbridgesTo.ok _
    · exact Result.AbridgesTo.flat rfl
  · have hstop := unwordedAll_ne_nil hissues hnil
    simp only [Bool.false_and, Bool.or_false, Bool.true_and, List.isEmpty_eq_false_iff.2 hstop,
      Bool.not_false, Bool.or_true, if_true]
    split
    · exact .of_issues hissues fun hr => absurd hr hnil
    · refine .of_issues ?_ fun hr => absurd (List.append_eq_nil_iff.1 hr).1 hnil
      rw [outlineFirst_append hnil]
      exact hissues

/-- A report of entries tells the same about a result and its abridgment, and tells something. -/
structure EntryReport.Abridges (report : Structure.EntryReport) : Prop where
  key : ∀ k r a, r.AbridgesTo a → unwordedAll false (report.key k a) = outlineFirst (report.key k r)
  value : ∀ k r a, r.AbridgesTo a →
    unwordedAll false (report.value k a) = outlineFirst (report.value k r)
  key_ne_nil : ∀ k r, r.valid = false → report.key k r ≠ []
  value_ne_nil : ∀ k r, r.valid = false → report.value k r ≠ []

theorem recordReport_abridges (s : Schema Value) :
    EntryReport.Abridges (Structure.recordReport s) where
  key k r a h := by
    simp only [Structure.recordReport, unwordedAll, outlineFirst, Issue.unworded, Issue.outline,
      unwordedDetail, outlineDetail, h.1]
    rfl
  value k r a h := by
    dsimp only [Structure.recordReport]
    rw [unwordedAll_under, outlineFirst_under, h.1]
  key_ne_nil _ _ _ := List.cons_ne_nil _ _
  value_ne_nil k r hr := by simpa [Structure.recordReport] using Result.invalid_iff.1 hr

theorem mapReport_abridges (s : Schema Value) : EntryReport.Abridges (Structure.mapReport s) where
  key k r a h := by
    simp only [Structure.mapReport, unwordedAll, outlineFirst, Issue.unworded, Issue.outline,
      unwordedDetail, outlineDetail, h.1]
    rfl
  value k r a h := by
    simp only [Structure.mapReport, unwordedAll, outlineFirst, Issue.unworded, Issue.outline,
      unwordedDetail, outlineDetail, h.1]
    rfl
  key_ne_nil _ _ _ := List.cons_ne_nil _ _
  value_ne_nil _ _ _ := List.cons_ne_nil _ _

/-- Issues that were found before stay in front. -/
theorem entries_issues {report : Structure.EntryReport} {keys : List Value} {rs : List Result}
    {acc r : Result} {output : Entries} (h : Structure.entries report keys rs acc output = .ok r) :
    ∃ more, r.issues = acc.issues ++ more := by
  induction keys generalizing rs acc output with
  | nil =>
    obtain rfl : ⟨.dict output, acc.issues⟩ = r := by simpa [Structure.entries] using h
    exact ⟨[], (List.append_nil _).symm⟩
  | cons k keys ih =>
    match rs with
    | [] =>
      obtain rfl : ⟨.dict output, acc.issues⟩ = r := by simpa [Structure.entries] using h
      exact ⟨[], (List.append_nil _).symm⟩
    | [kr] =>
      obtain rfl : ⟨.dict output, acc.issues ++ report.ofKey k kr⟩ = r := by
        simpa [Structure.entries] using h
      exact ⟨_, rfl⟩
    | kr :: vr :: rest =>
      obtain ⟨output', -, h⟩ := bind_eq_ok.1 h
      obtain ⟨more, hmore⟩ := ih h
      exact ⟨_, hmore.trans (List.append_assoc ..)⟩

/-- Once an issue is found the entries that follow add nothing to an outline. -/
theorem entries_abridges {report : Structure.EntryReport} {keys : List Value} {rs : List Result}
    {acc r a : Result} {output : Entries}
    (h : Structure.entries report keys rs acc output = .ok r) (hacc : acc.issues ≠ [])
    (hissues : unwordedAll false a.issues = outlineFirst acc.issues) : r.AbridgesTo a := by
  obtain ⟨more, hmore⟩ := entries_issues h
  refine .of_issues ?_ fun hnil => absurd (List.append_eq_nil_iff.1 (hmore.symm.trans hnil)).1 hacc
  rw [hmore, outlineFirst_append hacc, hissues]

theorem entries_cuts {report : Structure.EntryReport} (hreport : EntryReport.Abridges report)
    (keys : List Value) (h : Shortens rs as) {acc : Result} (hacc : acc.issues = [])
    (output : Entries) :
    Cuts (Structure.entries report keys rs acc output)
      (Structure.entries report keys as acc output) := by
  induction keys generalizing rs as acc output with
  | nil =>
    simp only [Structure.entries, hacc]
    exact .of_result (.ok _)
  | cons k keys ih =>
    cases h with
    | nil =>
      simp only [Structure.entries, hacc]
      exact .of_result (.ok _)
    | @failed kr rest a hkr ha =>
      -- The key fails, and its value is left out.
      have hka : a.valid = false := ha.valid_eq.trans hkr
      have hissues := hreport.key k kr a ha
      have hne := hreport.key_ne_nil k kr hkr
      intro r hr
      refine ⟨⟨.dict output, report.key k a⟩,
        by simp [Structure.entries, Structure.EntryReport.ofKey, hacc, hka], ?_⟩
      cases rest with
      | nil =>
        obtain rfl : ⟨.dict output, report.key k kr⟩ = r := by
          simpa [Structure.entries, Structure.EntryReport.ofKey, hacc, hkr] using hr
        exact .of_issues hissues fun hnil => absurd hnil hne
      | cons vr rest =>
        obtain ⟨output', -, hr⟩ := bind_eq_ok.1 hr
        have hfound : acc.issues ++ (report.ofKey k kr ++ report.ofValue k vr) =
            report.key k kr ++ report.ofValue k vr := by
          rw [hacc, List.nil_append, Structure.EntryReport.ofKey, hkr]
          rfl
        rw [hfound] at hr
        refine entries_abridges hr (List.append_ne_nil_of_left_ne_nil hne _) ?_
        rw [outlineFirst_append hne]
        exact hissues
    | @valid kr rest rest' hkr htail =>
      have hkey : report.ofKey k kr = [] := by rw [Structure.EntryReport.ofKey, if_pos hkr]
      cases htail with
      | nil =>
        simp only [Structure.entries, hacc, hkey]
        exact .of_result (.ok _)
      | @failed vr rest a hvr ha =>
        -- The value fails: the entry has no output.
        have hva : a.valid = false := ha.valid_eq.trans hvr
        have hvalue : report.ofValue k vr = report.value k vr := by
          rw [Structure.EntryReport.ofValue, hvr]
          rfl
        have hvalue' : report.ofValue k a = report.value k a := by
          rw [Structure.EntryReport.ofValue, hva]
          rfl
        intro r hr
        obtain ⟨output', -, hr⟩ := bind_eq_ok.1 hr
        rw [hkey, hvalue, hacc, List.nil_append, List.nil_append] at hr
        refine ⟨⟨.dict output, report.value k a⟩, ?_,
          entries_abridges hr (hreport.value_ne_nil k vr hvr) (hreport.value k vr a ha)⟩
        have houtput : Structure.addOutputs output kr a = .ok output := by
          rw [Structure.addOutputs, hva, Bool.and_false]
          rfl
        rw [Structure.entries, houtput]
        simp [Structure.entries, hkey, hvalue', hacc, bind, Except.bind]
      | @valid vr rest rest' hvr htail =>
        have hfound : acc.issues ++ (report.ofKey k kr ++ report.ofValue k vr) = [] := by
          rw [hacc, hkey, Structure.EntryReport.ofValue, if_pos hvr]
          rfl
        exact .bind fun output' _ => ih htail hfound output'

/-! ## Sets -/

theorem areHashable_append {vs ws : List Value} (h : Value.areHashable (vs ++ ws) = true) :
    Value.areHashable vs = true := by
  induction vs with
  | nil => rfl
  | cons v vs ih =>
    rw [List.cons_append, Value.areHashable, Bool.and_eq_true] at h
    rw [Value.areHashable, Bool.and_eq_true]
    exact ⟨h.1, ih h.2⟩

/-- What is valid among the first results is valid among all of them. -/
theorem Shortens.filter_valid (h : Shortens rs as) :
    ∃ more, rs.filter Result.valid = as.filter Result.valid ++ more := by
  induction h with
  | nil => exact ⟨[], rfl⟩
  | valid hr _ ih =>
    obtain ⟨more, hmore⟩ := ih
    exact ⟨more, by simp [hr, hmore]⟩
  | @failed r rs a hr ha =>
    have hra : a.valid = false := ha.valid_eq.trans hr
    exact ⟨rs.filter Result.valid, by simp [hr, hra]⟩

theorem setResult_cuts (h : Shortens rs as) : Cuts (Structure.set rs) (Structure.set as) := by
  intro r hr
  obtain ⟨more, hmore⟩ := h.filter_valid
  unfold Structure.set at hr ⊢
  dsimp only at hr ⊢
  split at hr
  · rename_i hhashable
    cases hr
    rw [hmore, List.map_append] at hhashable
    rw [if_pos (areHashable_append hhashable)]
    refine ⟨_, rfl, h.abridgesTo h.issues (fun hnil q hq => ?_) fun has => by rw [has]⟩
    exact Result.valid_iff.2 (List.flatMap_eq_nil_iff.1 hnil q hq)
  · cases hr

/-! ## Unions and intersections -/

theorem intersection_cuts (h : Shortens rs as) (v : Value) :
    Cuts (intersectionResult v rs) (intersectionResult v as) := by
  have hissues := h.issues
  by_cases hnil : rs.flatMap (·.issues) = []
  · have hvalid : ∀ r ∈ rs, r.valid = true :=
      fun r hr => Result.valid_iff.2 (List.flatMap_eq_nil_iff.1 hnil r hr)
    obtain rfl := h.eq_of_valid hvalid
    unfold intersectionResult
    rw [hnil]
    split
    · exact .bind fun w _ => .of_result (.ok w)
    · exact .of_result (.ok v)
  · have hresult : ∀ qs : List Result, qs.flatMap (·.issues) ≠ [] →
        intersectionResult v qs = .ok ⟨v, qs.flatMap (·.issues)⟩ := by
      intro qs hqs
      unfold intersectionResult
      split
      · rw [if_neg (by simpa using hqs)]
      · rfl
    rw [hresult rs hnil, hresult as (unwordedAll_ne_nil hissues hnil)]
    exact .of_result (.of_issues hissues fun hr => absurd hr hnil)

theorem find_valid {rs as : List Result} (h : List.Forall₂ Result.AbridgesTo rs as) :
    as.find? Result.valid = rs.find? Result.valid := by
  induction h with
  | nil => rfl
  | @cons r a rs as ha _ ih =>
    rw [List.find?_cons, List.find?_cons, ha.valid_eq]
    cases hr : r.valid with
    | true => rw [ha.eq_of_valid hr]
    | false => exact ih

theorem unwordedGroups_of_abridged {rs as : List Result}
    (h : List.Forall₂ Result.AbridgesTo rs as) :
    unwordedGroups false (as.map (·.issues)) = outlineGroups (rs.map (·.issues)) := by
  induction h with
  | nil => rfl
  | cons ha _ ih => rw [List.map_cons, List.map_cons, unwordedGroups, outlineGroups, ha.1, ih]

/-- Abridging all options abridges every group of a union. -/
theorem unionResult_abridges {rs as : List Result} (h : List.Forall₂ Result.AbridgesTo rs as)
    (s : Schema Value) (v : Value) : (unionResult s v rs).AbridgesTo (unionResult s v as) := by
  unfold unionResult
  rw [find_valid h]
  cases rs.find? Result.valid with
  | some r => exact .ok r.value
  | none =>
    dsimp only
    refine .of_issues ?_ fun hr => nomatch hr
    simp only [Result.failed, unwordedAll, outlineFirst, Issue.unworded, Issue.outline,
      unwordedDetail, outlineDetail, unwordedGroups_of_abridged h]
    rfl

end Assay
