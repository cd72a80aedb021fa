import Assay.Proofs.Masks
import Assay.Proofs.PlainData

/-!
# What message providers overlook

A message provider overlooks what a mask hides when it answers every issue as it answers the issue
behind the mask (`Resolution.Overlooks`). Issues that are the same behind a mask then get the same
words, and so results that are the same behind it are concluded alike (`conclude_same`).
-/

namespace Assay

namespace Run

variable {α β : Type} {I : Session → Prop}

/-- The operations have one and the same answer in all sessions of the invariant. -/
def Alike (I : Session → Prop) (x y : Run α) : Prop := ∃ e, x.Gives I e ∧ y.Gives I e

namespace Alike

variable {x y z : Run α}

theorem pure {a : α} : Alike I (Pure.pure a) (Pure.pure a) := ⟨_, .pure, .pure⟩

theorem trans {σ : Session} (hσ : I σ) (hxy : Alike I x y) (hyz : Alike I y z) : Alike I x z := by
  obtain ⟨e, hx, hy⟩ := hxy
  obtain ⟨e', hy', hz⟩ := hyz
  obtain rfl : e = e' := (hy.answer hσ).symm.trans (hy'.answer hσ)
  exact ⟨e, hx, hz⟩

theorem bind {f g : α → Run β} (h : Alike I x y) (hfg : ∀ a, Alike I (f a) (g a)) :
    Alike I (x >>= f) (y >>= g) := by
  obtain ⟨e, hx, hy⟩ := h
  exact ⟨e >>= fun a => (hfg a).choose, hx.bind fun a _ => (hfg a).choose_spec.1,
    hy.bind fun a _ => (hfg a).choose_spec.2⟩

theorem map {f : α → β} (h : Alike I x y) : Alike I (f <$> x) (f <$> y) :=
  let ⟨_, hx, hy⟩ := h
  ⟨_, hx.map, hy.map⟩

theorem fixed (h : Alike I x y) : x.Fixed I :=
  let ⟨_, hx, _⟩ := h
  hx.fixed

theorem answer_eq (h : Alike I x y) {σ : Session} (hσ : I σ) : x.answer σ = y.answer σ := by
  obtain ⟨e, hx, hy⟩ := h
  rw [hx.answer hσ, hy.answer hσ]

end Alike

end Run

namespace Resolution

variable {host : Host} {m : Value → Value} {ctx : Context} {config : Config} {I : Session → Prop}

/-- The provider answers an issue as it answers the issue behind a mask. -/
def Overlooks (host : Host) (m : Value → Value) (I : Session → Prop) (provider : Value) : Prop :=
  ∀ i : Issue Value, (consult host provider i).Alike I (consult host provider (i.masked m))

/-- A plain value in place of a provider treats every issue alike: a text is the message, and
other values than null are no providers. -/
theorem overlooks_of_isJson {provider : Value} (h : provider.isJson = true) :
    Overlooks host m I provider := by
  intro i
  cases provider with
  | null | str _ => exact .pure
  | _ => first | exact ⟨_, .throw, .throw⟩ | cases h

/-- The library's own messages do not show who reports an issue. -/
theorem overlooks_english : Overlooks host m I (.builtin .english) := by
  intro i
  obtain ⟨path, message, input, source, detail⟩ := i
  have hcall : (Builtin.english : Builtin Value).call
      (.wording (Issue.masked m ⟨path, message, input, source, detail⟩)) =
        Builtin.call .english (.wording ⟨path, message, input, source, detail⟩) := by
    cases detail <;> rfl
  have hconsult (i : Issue Value) : consult host (.builtin .english) i =
      Run.lift (Builtin.call .english (.wording i)) >>= fun v => Pure.pure (offered v) := by
    unfold consult Host.call Host.start
    simp only [bind_assoc, pure_bind]
  rw [hconsult, hconsult, hcall]
  exact .bind ⟨_, .lift, .lift⟩ fun v => .pure

theorem firstOffer_alike {i : Issue Value} {ps : List Value}
    (h : ∀ p ∈ ps, Overlooks host m I p) :
    (firstOffer host i ps).Alike I (firstOffer host (i.masked m) ps) := by
  induction ps with
  | nil => exact .pure
  | cons p ps ih =>
    obtain ⟨hp, hps⟩ := List.forall_mem_cons.1 h
    refine (hp i).bind fun offer => ?_
    cases offer with
    | none => exact ih hps
    | some s => exact .pure

/-- The mask does not hide the message providers of schemas and checks. -/
def ShowsErrors (m : Value → Value) : Prop :=
  ∀ i : Issue Value, sourceError (i.masked m) = sourceError i

/-- The providers of a parse and of a configuration overlook what a mask hides. -/
structure Blind (host : Host) (m : Value → Value) (ctx : Context) (config : Config)
    (I : Session → Prop) : Prop where
  parse : Overlooks host m I ctx.error
  custom : Overlooks host m I config.customError
  locale : Overlooks host m I config.localeError

/-- A source with a plain value in place of a message provider. -/
def HasMessage (source : Value) : Prop :=
  ∀ i : Issue Value, i.source = source → (sourceError i).isJson = true

theorem hasMessage_schema {s : Schema Value} (h : s.error.isJson = true) :
    HasMessage (.schema s) := by
  intro i hi
  rwa [sourceError, hi]

theorem hasMessage_check {c : Check Value} (h : c.error.isJson = true) :
    HasMessage (.check c) := by
  intro i hi
  rwa [sourceError, hi]

theorem message_alike (hm : ShowsErrors m) (h : Blind host m ctx config I) {i : Issue Value}
    (hi : HasMessage i.source) :
    (message host ctx config i).Alike I (message host ctx config (i.masked m)) := by
  unfold message
  rw [hm]
  refine firstOffer_alike fun p hp => ?_
  simp only [List.mem_cons, List.not_mem_nil, or_false] at hp
  rcases hp with rfl | rfl | rfl | rfl
  · exact overlooks_of_isJson (hi i rfl)
  · exact h.parse
  · exact h.custom
  · exact h.locale

mutual

theorem finalizeOne_alike (hm : ShowsErrors m) (h : Blind host m ctx config I) :
    (i : Issue Value) → i.Sourced HasMessage →
    (finalizeOne host ctx config i).Alike I (finalizeOne host ctx config (i.masked m))
  | ⟨path, text, input, source, detail⟩, hi => by
    have hdetail := finalizeDetail_alike hm h detail hi.2
    have hmessage := message_alike hm h (i := ⟨path, .null, input, source, detail⟩) hi.1
    unfold Issue.masked finalizeOne
    split
    · exact hmessage.map.bind fun w => hdetail.bind fun d => .pure
    · exact Run.Alike.bind .pure fun w => hdetail.bind fun d => .pure
termination_by structural x => x

theorem finalizeDetail_alike (hm : ShowsErrors m) (h : Blind host m ctx config I) :
    (d : Detail Value (Issue Value)) → detailSourced HasMessage d →
    (finalizeDetail host ctx config d).Alike I (finalizeDetail host ctx config (d.masked m))
  | .invalidUnion groups _ _, hd => (finalizeGroups_alike hm h groups hd).bind fun _ => .pure
  | .invalidKey _ issues, hd => (finalize_alike hm h issues hd).bind fun _ => .pure
  | .invalidElement _ _ issues, hd => (finalize_alike hm h issues hd).bind fun _ => .pure
  | .unspecified, _ | .invalidType .., _ | .tooBig .., _ | .tooSmall .., _ | .invalidFormat .., _
  | .notMultipleOf .., _ | .unrecognizedKeys .., _ | .invalidValue .., _ | .custom .., _ => .pure
termination_by structural x => x

/-- Issues get the same words with and without a mask. -/
theorem finalize_alike (hm : ShowsErrors m) (h : Blind host m ctx config I) :
    (is : List (Issue Value)) → allSourced HasMessage is →
    (finalize host ctx config is).Alike I (finalize host ctx config (Issue.maskedAll m is))
  | [], _ => .pure
  | i :: is, his => (finalizeOne_alike hm h i his.1).bind fun _ =>
      (finalize_alike hm h is his.2).bind fun _ => .pure
termination_by structural x => x

theorem finalizeGroups_alike (hm : ShowsErrors m) (h : Blind host m ctx config I) :
    (gs : List (List (Issue Value))) → groupsSourced HasMessage gs → (finalizeGroups host ctx config gs).Alike I
      (finalizeGroups host ctx config (Issue.maskedGroups m gs))
  | [], _ => .pure
  | g :: gs, hgs => (finalize_alike hm h g hgs.1).bind fun _ =>
      (finalizeGroups_alike hm h gs hgs.2).bind fun _ => .pure
termination_by structural x => x

end

end Resolution

/-! ## Conclusions -/

section

variable {host : Host} {σ : Session} {m : Value → Value} {ctx : Context} {I : Session → Prop}

/-- A parse is concluded alike with and without a mask. -/
theorem conclude_alike (hI : ∀ τ, I τ → τ.config = σ.config)
    (hm : Resolution.ShowsErrors m) (h : Resolution.Blind host m ctx σ.config I) {r : Result}
    (hr : r.Sourced Resolution.HasMessage) :
    (conclude host ctx r).Alike I (conclude host ctx (r.masked m)) := by
  obtain ⟨e, hx, hy⟩ := Resolution.finalize_alike hm h r.issues (allSourced_iff.2 hr)
  rw [Issue.maskedAll_eq_map] at hy
  have hwords : (Resolution.finalizeActive host ctx r.issues).Alike I
      (Resolution.finalizeActive host ctx (r.masked m).issues) :=
    ⟨e, .reading fun τ hτ => hI τ hτ ▸ hx, .reading fun τ hτ => hI τ hτ ▸ hy⟩
  have hvalid : (r.masked m).valid = r.valid := List.isEmpty_map
  have hvalue : (r.masked m).value = r.value := rfl
  unfold conclude
  rw [hvalid, hvalue]
  split
  · exact .pure
  · exact hwords.bind fun _ => .pure

/-- Results that are the same behind a mask are concluded alike. -/
theorem conclude_same (hI : ∀ τ, I τ → τ.config = σ.config) (hσ : I σ)
    (hm : Resolution.ShowsErrors m) (h : Resolution.Blind host m ctx σ.config I) {r r' : Result}
    (hr : r.Sourced Resolution.HasMessage) (hr' : r'.Sourced Resolution.HasMessage)
    (hsame : Result.Same m r r') :
    (conclude host ctx r).answer σ = (conclude host ctx r').answer σ := by
  rw [(conclude_alike hI hm h hr).answer_eq hσ, (conclude_alike hI hm h hr').answer_eq hσ,
    show r.masked m = r'.masked m from hsame]

end

end Assay
