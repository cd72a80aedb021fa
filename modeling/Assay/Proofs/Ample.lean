import Assay.Evaluate.Form
import Assay.Proofs.Calls

/-!
# Operations that do not run out of levels

Only walks along schemas are limited to a number of levels, and end with the fault `tooDeep` when
these do not suffice. No other operation of the library ends with it: converting, merging and
assembling values, running rules, wording issues, and calling functions that do not themselves
(`Run.Ample`).
-/

namespace Assay

/-- The answer, or the fault, is not that levels ran out. -/
def Ample {α : Type} (e : Except Fault α) : Prop := e ≠ .error .tooDeep

namespace Ample

variable {α β : Type}

theorem ok {a : α} : Ample (.ok a : Except Fault α) := nofun

theorem unsupported : Ample (.error .unsupported : Except Fault α) := nofun

theorem definition {cause : DefinitionError} :
    Ample (.error (.definition cause) : Except Fault α) := nofun

theorem of_error {f : Fault} (h : Ample (.error f : Except Fault α)) :
    Ample (.error f : Except Fault β) := by
  rintro ⟨⟩
  exact h rfl

theorem bind {e : Except Fault α} {k : α → Except Fault β} (he : Ample e)
    (hk : ∀ a, Ample (k a)) : Ample (e >>= k) := by
  cases e with
  | error f => exact he.of_error
  | ok a => exact hk a

theorem map {e : Except Fault α} {f : α → β} (he : Ample e) : Ample (f <$> e) := by
  cases e with
  | error f => exact he.of_error
  | ok a => exact ok

end Ample

/-! ## Values -/

theorem pairs?_ample (vs : List Value) : Ample (ClassRef.pairs? vs) := by
  induction vs with
  | nil => exact .ok
  | cons v vs ih =>
    unfold ClassRef.pairs?
    split
    · split
      · exact ih.map
      · exact nofun
    · exact nofun
    · exact nofun

theorem toDict_ample (v : Value) : Ample (ClassRef.toDict v) := by
  unfold ClassRef.toDict
  split
  · exact .ok
  · split
    · exact (pairs?_ample _).map
    · exact .unsupported

theorem mapM_ample {α β : Type} {f : α → Except Fault β} (hf : ∀ a, Ample (f a)) (as : List α) :
    Ample (as.mapM f) := by
  induction as with
  | nil => exact .ok
  | cons a as ih =>
    rw [List.mapM_cons]
    exact (hf a).bind fun _ => ih.bind fun _ => .ok

theorem toBytes_ample (v : Value) : Ample (ClassRef.toBytes v) := by
  unfold ClassRef.toBytes
  split
  · exact .ok
  · split <;> exact nofun
  · exact .ok
  · exact nofun
  · split
    · exact nofun
    · refine (mapM_ample (fun w => ?_) _).bind fun _ => .ok
      split
      · split <;> exact nofun
      · exact nofun

theorem unmergeable_ample {α : Type} (path : List Value) :
    Ample (unmergeable path : Except Fault α) := nofun

mutual

theorem mergeValues_ample (path : List Value) (left : Value) : (right : Value) →
    Ample (mergeValues path left right)
  | .dict es => by
    unfold mergeValues
    split
    · exact .ok
    · split
      · exact (mergeEntries_ample path _ _ es).map
      · exact unmergeable_ample path
  | .view es => by
    unfold mergeValues
    split
    · exact .ok
    · split
      · exact (mergeEntries_ample path _ _ es).map
      · exact unmergeable_ample path
  | .list vs => by
    unfold mergeValues
    split
    · exact .ok
    · split
      · split
        · exact (mergeItems_ample path 0 _ vs).map
        · exact unmergeable_ample path
      · exact unmergeable_ample path
  | .tuple vs => by
    unfold mergeValues
    split
    · exact .ok
    · split
      · split
        · exact (mergeItems_ample path 0 _ vs).map
        · exact unmergeable_ample path
      · exact unmergeable_ample path
  | .missing | .null | .bool _ | .int _ | .float _ | .nan _ | .str _ | .bytes .. | .set _
  | .frozenSet _ | .date _ | .moment _ | .member .. | .object .. | .cls _ | .callable _
  | .builtin _ | .schema _ | .check _ | .issue _ | .pending .. => by
    unfold mergeValues
    split
    · exact .ok
    · exact unmergeable_ample path
termination_by structural x => x

theorem mergeEntries_ample (path : List Value) (left merged : Entries) :
    (right : List (Value × Value)) → Ample (mergeEntries path left merged right)
  | [] => .ok
  | (k, v) :: rest => by
    unfold mergeEntries
    split
    · exact (mergeValues_ample (path ++ [k]) _ v).bind fun _ => mergeEntries_ample path left _ rest
    · exact mergeEntries_ample path left _ rest
termination_by structural x => x

theorem mergeItems_ample (path : List Value) (index : Nat) : (left right : List Value) →
    Ample (mergeItems path index left right)
  | [], _ => by
    unfold mergeItems
    exact .ok
  | _ :: _, [] => .ok
  | w :: ws, v :: vs => by
    unfold mergeItems
    exact (mergeValues_ample _ w v).bind fun _ => (mergeItems_ample path _ ws vs).bind fun _ => .ok
termination_by structural _ right => right

end

/-! ## Assembling and judging -/

theorem addOutputs_ample (output : Entries) (kr vr : Result) :
    Ample (Structure.addOutputs output kr vr) := by
  unfold Structure.addOutputs Structure.insertComputed
  split
  · split <;> exact nofun
  · exact .ok

theorem entries_ample (report : Structure.EntryReport) (keys : List Value) (rs : List Result)
    (acc : Result) (output : Entries) : Ample (Structure.entries report keys rs acc output) := by
  induction keys generalizing rs acc output with
  | nil => exact .ok
  | cons k ks ih =>
    match rs with
    | [] => exact .ok
    | [_] => exact .ok
    | kr :: vr :: rest => exact (addOutputs_ample output kr vr).bind fun _ => ih _ _ _

theorem set_ample (rs : List Result) : Ample (Structure.set rs) := by
  unfold Structure.set
  dsimp only
  split <;> exact nofun

theorem intersectionResult_ample (v : Value) (rs : List Result) :
    Ample (intersectionResult v rs) := by
  unfold intersectionResult
  dsimp only
  split
  · split
    · exact (mergeValues_ample _ _ _).bind fun _ => .ok
    · exact .ok
  · exact .ok

theorem isMultiple_ample (v divisor : Value) : Ample (isMultiple v divisor) := by
  unfold isMultiple
  split
  · exact .ok
  · split
    · split <;> exact nofun
    · exact .ok
    · exact nofun

/-- A fold whose steps do not run out of levels. -/
theorem foldlM_ample {α β : Type} {f : β → α → Except Fault β} (h : ∀ b a, Ample (f b a))
    (as : List α) (b : β) : Ample (as.foldlM f b) := by
  induction as generalizing b with
  | nil => exact .ok
  | cons a as ih =>
    rw [List.foldlM_cons]
    exact (h b a).bind ih

theorem anyText_ample (test : String → Bool) (v : Value) : Ample (anyText test v) := by
  unfold anyText
  split
  · exact .ok
  · refine foldlM_ample (fun found w => ?_) _ _
    split
    · exact .ok
    · split
      · exact .ok
      · exact .unsupported
  · exact .unsupported

theorem textTest?_ample {rule : Rule Value} {test : String → Except Fault Bool}
    (h : rule.textTest? = some test) (s : String) : Ample (test s) := by
  cases rule <;> cases h
  case startsWith => exact anyText_ample _ _
  case endsWith => exact anyText_ample _ _
  case includes => dsimp only; split <;> exact nofun
  all_goals exact .ok

theorem verdict_ample (rule : Rule Value) (v : Value) : Ample (rule.verdict v) := by
  cases rule with
  | atLeast | atMost | exactly =>
    unfold Rule.verdict
    dsimp only
    split
    · split <;> exact nofun
    · exact .ok
  | greaterThan bound inclusive | lessThan bound inclusive =>
    unfold Rule.verdict
    dsimp only
    split <;> exact nofun
  | multipleOf divisor => exact (isMultiple_ample v divisor).bind fun _ => .ok
  | _ =>
    unfold Rule.verdict
    dsimp only
    split
    · rename_i htest
      exact (textTest?_ample htest _).bind fun _ => .ok
    · exact .ok

theorem evaluator?_ample (t : KindTable) (kind : Value) : Ample (t.evaluator? kind) := by
  unfold KindTable.evaluator?
  split
  · exact .unsupported
  · split
    · exact .ok
    · split
      · exact .definition
      · exact .unsupported

theorem builtin_ample (b : Builtin Value) (call : Call Value) : Ample (b.call call) := by
  unfold Builtin.call
  split
  case h_5 => split <;> exact nofun
  all_goals exact nofun

/-! ## Operations on a session -/

/-- The operation keeps the invariant and does not run out of levels. -/
abbrev Run.Ample {α : Type} (I : Session → Prop) (x : Run α) : Prop := x.Always I Assay.Ample

namespace Run.Ample

variable {α β : Type} {I : Session → Prop} {x : Run α}

theorem pure {a : α} : (Pure.pure a : Run α).Ample I := Always.pure .ok

theorem throw {e : Fault} (h : e ≠ .tooDeep) : (MonadExcept.throw e : Run α).Ample I :=
  Always.throw (by rintro ⟨⟩; exact h rfl)

theorem bind {f : α → Run β} (hx : x.Ample I) (hf : ∀ a, (f a).Ample I) : (x >>= f).Ample I :=
  Always.bind hx (fun a _ => hf a) fun _ he => he.of_error

theorem map {f : α → β} (hx : x.Ample I) : (f <$> x).Ample I :=
  Always.map hx (fun _ _ => .ok) fun _ he => he.of_error

end Run.Ample

/-- No supplied function runs out of levels, and all keep the invariant. -/
def Host.Ample (host : Host) (I : Session → Prop) : Prop :=
  ∀ f call, (host.run f call).Ample I

end Assay
