import Assay.Proofs.StockFunctions
import Assay.Proofs.Wording
import Mathlib.Data.List.Forall2

/-!
# What wording does

Finalizing issues gives back one issue for each, at every depth of nesting: with the same place and
the same detail, but for the issues that the detail nests (`Issue.Mirrors`). The message of an issue
without one is the first that a provider answers (`firstOffer_gives`); its source is gone, and its
input unless inputs are reported (`Resolution.Worded`). Issues that are final stay as they are, so
finalizing twice is finalizing once (`finalize_words_issues`).
-/

namespace Assay

/-! ## Nested issues -/

namespace Detail

/-- The groups of issues that a detail nests. -/
def groups : Detail Value (Issue Value) → List (List (Issue Value))
  | .invalidUnion errors _ _ => errors
  | .invalidKey _ issues | .invalidElement _ _ issues => [issues]
  | _ => []

/-- What a detail says besides the issues that it nests. -/
def bare : Detail Value (Issue Value) → Detail Value (Issue Value)
  | .invalidUnion _ note discriminator => .invalidUnion [] note discriminator
  | .invalidKey origin _ => .invalidKey origin []
  | .invalidElement origin key _ => .invalidElement origin key []
  | detail => detail

end Detail

namespace Issue

/-- The issue is one of the list, or nested in one of them at whatever depth. -/
inductive Within (i : Issue Value) : List (Issue Value) → Prop
  | here {is : List (Issue Value)} : i ∈ is → Within i is
  | nested {is : List (Issue Value)} {j : Issue Value} {g : List (Issue Value)} :
      j ∈ is → g ∈ j.detail.groups → Within i g → Within i is

theorem Within.mono {i : Issue Value} {is js : List (Issue Value)} (h : i.Within is)
    (hjs : ∀ j ∈ is, j ∈ js) : i.Within js := by
  cases h with
  | here hi => exact .here (hjs i hi)
  | nested hj hg hi => exact .nested (hjs _ hj) hg hi

/-- The issues have the same place and kind, their details say the same and nest as many issues in
the same order, and so on for those; `P` relates the issues that correspond at every depth. -/
inductive Mirrors (P : Issue Value → Issue Value → Prop) : Issue Value → Issue Value → Prop
  | intro {i j : Issue Value} : P i j → j.path = i.path → j.detail.bare = i.detail.bare →
      List.Forall₂ (List.Forall₂ (Mirrors P)) i.detail.groups j.detail.groups → Mirrors P i j

end Issue

namespace Resolution

variable {host : Host} {ctx : Context} {config : Config} {I : Session → Prop}
  {answers : Value → Issue Value → Option String}

/-! ## Messages -/

/-- The providers that are asked for the message of an issue, in order. -/
def providers (ctx : Context) (config : Config) (i : Issue Value) : List Value :=
  [sourceError i, ctx.error, config.customError, config.localeError]

/-- The message is the first one that is offered, if any. -/
theorem firstOffer_gives {i : Issue Value} {ps : List Value}
    (h : ∀ p ∈ ps, (consult host p i).Gives I (.ok (answers p i))) :
    (firstOffer host i ps).Gives I (.ok ((ps.findSome? (answers · i)).getD fallback)) := by
  induction ps with
  | nil => exact .pure
  | cons p ps ih =>
    obtain ⟨hp, hps⟩ := List.forall_mem_cons.1 h
    refine hp.next_ok ?_
    rw [List.findSome?_cons]
    cases answers p i with
    | none => exact ih hps
    | some s => exact .pure

/-! ## Issues -/

/-- What a final issue says that the raw one does not. -/
structure Worded (answers : Value → Issue Value → Option String) (ctx : Context) (config : Config)
    (i j : Issue Value) : Prop where
  /-- A message of its own stays. -/
  given : i.message ≠ .null → j.message = i.message
  /-- Any other message is the first that a provider answers to the raw issue. -/
  resolved : i.message = .null →
    j.message = .str (((providers ctx config i).findSome? (answers · i)).getD "Invalid input")
  source : j.source = .null
  input : j.input = if ctx.reportInput then i.input else .missing

/-- The providers of every issue answer it in all sessions of the invariant, each time alike. -/
def Answered (host : Host) (I : Session → Prop) (answers : Value → Issue Value → Option String)
    (ctx : Context) (config : Config) (is : List (Issue Value)) : Prop :=
  ∀ i : Issue Value, i.Within is → i.message = .null → ∀ p ∈ providers ctx config i,
    (consult host p i).Gives I (.ok (answers p i))

theorem Answered.mono {is js : List (Issue Value)} (h : Answered host I answers ctx config js)
    (his : ∀ i ∈ is, i ∈ js) : Answered host I answers ctx config is :=
  fun i hi => h i (hi.mono his)

/-- The relation of an issue to its final form, at every depth. -/
abbrev Final (answers : Value → Issue Value → Option String) (ctx : Context) (config : Config) :
    Issue Value → Issue Value → Prop :=
  Issue.Mirrors (Worded answers ctx config)

mutual

theorem finalizeOne_final : (i : Issue Value) → Answered host I answers ctx config [i] →
    ∃ j, (finalizeOne host ctx config i).Gives I (.ok j) ∧ Final answers ctx config i j ∧
      finalizeOne host ctx config j = pure j
  | ⟨path, text, input, source, detail⟩, h => by
    obtain ⟨detail', hdetail, hbare, hgroups, hagain⟩ := finalizeDetail_final detail fun g hg j hj =>
      h j (.nested (List.mem_singleton_self _) hg hj)
    have hfinal {w : Value} (hw : Worded answers ctx config ⟨path, text, input, source, detail⟩
        ⟨path, w, if ctx.reportInput then input else .missing, .null, detail'⟩) (hnull : w ≠ .null) :
        Final answers ctx config ⟨path, text, input, source, detail⟩
            ⟨path, w, if ctx.reportInput then input else .missing, .null, detail'⟩ ∧
          finalizeOne host ctx config
              ⟨path, w, if ctx.reportInput then input else .missing, .null, detail'⟩ =
            pure ⟨path, w, if ctx.reportInput then input else .missing, .null, detail'⟩ := by
      refine ⟨.intro hw rfl hbare hgroups, ?_⟩
      unfold finalizeOne
      rw [hagain]
      cases w <;> first | exact absurd rfl hnull | cases ctx.reportInput <;> rfl
    unfold finalizeOne
    split
    · have hmessage := firstOffer_gives (h _ (.here (List.mem_singleton_self _)) rfl)
      refine ⟨_, hmessage.map.next_ok (hdetail.next_ok .pure), hfinal ?_ (nomatch ·)⟩
      exact ⟨fun hnull => absurd rfl hnull, fun _ => rfl, rfl, rfl⟩
    · rename_i hnull
      refine ⟨_, Run.Gives.pure.next_ok (hdetail.next_ok .pure), hfinal ?_ hnull⟩
      exact ⟨fun _ => rfl, fun h => absurd h hnull, rfl, rfl⟩
termination_by structural x => x

theorem finalizeDetail_final : (d : Detail Value (Issue Value)) →
    (∀ g ∈ d.groups, Answered host I answers ctx config g) →
    ∃ e, (finalizeDetail host ctx config d).Gives I (.ok e) ∧ e.bare = d.bare ∧
      List.Forall₂ (List.Forall₂ (Final answers ctx config)) d.groups e.groups ∧
      finalizeDetail host ctx config e = pure e
  | .invalidUnion groups note discriminator, h => by
    obtain ⟨hs, hgive, hfinal, hagain⟩ := finalizeGroups_final groups h
    refine ⟨.invalidUnion hs note discriminator, hgive.next_ok .pure, rfl, hfinal, ?_⟩
    rw [finalizeDetail, hagain]
    rfl
  | .invalidKey origin issues, h => by
    obtain ⟨js, hgive, hfinal, hagain⟩ := finalize_final issues (h _ (List.mem_singleton_self _))
    refine ⟨.invalidKey origin js, hgive.next_ok .pure, rfl, .cons hfinal .nil, ?_⟩
    rw [finalizeDetail, hagain]
    rfl
  | .invalidElement origin key issues, h => by
    obtain ⟨js, hgive, hfinal, hagain⟩ := finalize_final issues (h _ (List.mem_singleton_self _))
    refine ⟨.invalidElement origin key js, hgive.next_ok .pure, rfl, .cons hfinal .nil, ?_⟩
    rw [finalizeDetail, hagain]
    rfl
  | .unspecified, _ | .invalidType .., _ | .tooBig .., _ | .tooSmall .., _ | .invalidFormat .., _
  | .notMultipleOf .., _ | .unrecognizedKeys .., _ | .invalidValue .., _ | .custom .., _ =>
    ⟨_, .pure, rfl, .nil, rfl⟩
termination_by structural x => x

theorem finalize_final : (is : List (Issue Value)) → Answered host I answers ctx config is →
    ∃ js, (finalize host ctx config is).Gives I (.ok js) ∧
      List.Forall₂ (Final answers ctx config) is js ∧ finalize host ctx config js = pure js
  | [], _ => ⟨[], .pure, .nil, rfl⟩
  | i :: is, h => by
    obtain ⟨j, hone, hj, hagain⟩ := finalizeOne_final i (h.mono (by simp))
    obtain ⟨js, hall, hjs, hagains⟩ := finalize_final is (h.mono fun _ => List.mem_cons_of_mem _)
    refine ⟨j :: js, hone.next_ok (hall.next_ok .pure), .cons hj hjs, ?_⟩
    rw [finalize, hagain, hagains]
    rfl
termination_by structural x => x

theorem finalizeGroups_final : (gs : List (List (Issue Value))) →
    (∀ g ∈ gs, Answered host I answers ctx config g) →
    ∃ hs, (finalizeGroups host ctx config gs).Gives I (.ok hs) ∧
      List.Forall₂ (List.Forall₂ (Final answers ctx config)) gs hs ∧
      finalizeGroups host ctx config hs = pure hs
  | [], _ => ⟨[], .pure, .nil, rfl⟩
  | g :: gs, h => by
    obtain ⟨js, hone, hjs, hagain⟩ := finalize_final g (h g List.mem_cons_self)
    obtain ⟨hs, hall, hhs, hagains⟩ := finalizeGroups_final gs fun g' hg' =>
      h g' (List.mem_cons_of_mem _ hg')
    refine ⟨js :: hs, hone.next_ok (hall.next_ok .pure), .cons hjs hhs, ?_⟩
    rw [finalizeGroups, hagain, hagains]
    rfl
termination_by structural x => x

end

/-- Finalizing words issues and does nothing else: in every session of an invariant that the
providers keep and in which they answer alike, it gives one final issue for each raw one, in the
same order and at every depth, and finalizing these again changes nothing. -/
theorem finalize_words_issues {is : List (Issue Value)} (h : Answered host I answers ctx config is) :
    ∃ js, (finalize host ctx config is).Gives I (.ok js) ∧
      List.Forall₂ (Final answers ctx config) is js ∧ finalize host ctx config js = pure js :=
  finalize_final is h

/-! ## An instance -/

namespace Tried

/-- An option of the wrong type, and one that has its own message. -/
def nested : List (List (Issue Value)) :=
  [[⟨[], .null, .int 1, .null, .invalidType (.str "string") (.str "number")⟩],
    [⟨[], .str "no", .int 1, .null, .custom (.dict [])⟩]]

def issues : List (Issue Value) :=
  [⟨[.str "a"], .null, .int 1, .null, .invalidUnion nested .null .null⟩]

/-- The parse words wrong types only. -/
def asking : Context :=
  { error := .callable ⟨0, "p_only", [.str "invalid_type", .str "wrong"], false⟩ }

/-- The locale has words for every issue. -/
def speaking : Config := { localeError := .callable ⟨1, "p_code", [], false⟩ }

/-- What stock providers answer in a new session. -/
def offers (p : Value) (i : Issue Value) : Option String :=
  match (consult (Stock.hostThat false) p i).answer {} with
  | .ok o => o
  | .error _ => none

theorem source_eq_null {i : Issue Value} (h : i.Within issues) : i.source = .null := by
  cases h with
  | here hi => rw [List.mem_singleton.1 hi]
  | @nested _ j g hj hg hi =>
    obtain rfl := List.mem_singleton.1 hj
    have hnested : g ∈ nested := hg
    simp only [nested, List.mem_cons, List.not_mem_nil, or_false] at hnested
    rcases hnested with rfl | rfl <;> cases hi with
    | here hi => rw [List.mem_singleton.1 hi]
    | nested hj hg => rw [List.mem_singleton.1 hj] at hg; cases hg

theorem answered : Answered (Stock.hostThat false) (fun _ => True) offers asking speaking issues := by
  intro i hi _ p hp
  have hsource : sourceError i = .null := by rw [sourceError, source_eq_null hi]
  rw [providers, hsource] at hp
  simp only [List.mem_cons, List.not_mem_nil, or_false] at hp
  rcases hp with rfl | rfl | rfl | rfl <;> exact fun τ _ => ⟨trivial, rfl⟩

end Tried

open Tried in
/-- The option of the wrong type is worded by the parse, the union by the locale. -/
theorem finalize_words_issues_tried :
    Answered (Stock.hostThat false) (fun _ => True) offers asking speaking issues ∧
      (finalize (Stock.hostThat false) asking speaking issues).answer {} = .ok
        [⟨[.str "a"], .str "[invalid_union]", .missing, .null, .invalidUnion
          [[⟨[], .str "wrong", .missing, .null, .invalidType (.str "string") (.str "number")⟩],
            [⟨[], .str "no", .missing, .null, .custom (.dict [])⟩]] .null .null⟩] ∧
      ∃ js, (finalize (Stock.hostThat false) asking speaking issues).Gives (fun _ => True) (.ok js) ∧
        List.Forall₂ (Final offers asking speaking) issues js ∧
        finalize (Stock.hostThat false) asking speaking js = pure js :=
  ⟨answered, rfl, finalize_words_issues answered⟩

end Resolution

end Assay
