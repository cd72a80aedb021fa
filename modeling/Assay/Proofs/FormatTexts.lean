import Assay.Pattern.Parser
import Assay.Proofs.Discrimination
import Assay.Proofs.Immediate
import Assay.Proofs.Matching

/-!
# The texts of a format

A node of a named format accepts the texts that have the format, as they are (`format_accepts`). Its
issues show a pattern for the format; that pattern has a meaning of its own, the texts that it
matches as a whole (`StringFormat.Shows`).
-/

namespace Assay

variable {host : Host} {ctx : Context} {σ τ : Session} {s : Schema Value} {f : StringFormat}
  {coerce abort error : Value} {P : List Char → Prop}

/-- Letters and digits are three ranges of characters. -/
theorem isAlphanum_eq (c : Char) : c.isAlphanum =
    ('A' ≤ c && c ≤ 'Z' || 'a' ≤ c && c ≤ 'z' || '0' ≤ c && c ≤ '9') := by
  rw [← Bool.decide_and]
  rfl

/-- The schema accepts the texts with a property, each as it is, and no others. -/
def Schema.AcceptsTexts (host : Host) (ctx : Context) (σ : Session) (s : Schema Value)
    (P : List Char → Prop) : Prop :=
  ∀ t w, (safeParse host ctx s (.str t)).answer σ = .ok (.accepted w) ↔
    w = .str t ∧ P t.toList

/-- The pattern that the issues of the format show can be read, and as a whole it matches the texts
with a property and no others. -/
def StringFormat.Shows (f : StringFormat) (P : List Char → Prop) : Prop :=
  ∃ text p, f.pattern? = some text ∧ Pattern.ofText text = .ok p ∧
    ∀ t, p.matchesWhole t = true ↔ P t.toList

/-- A node of the format without checks. -/
def StringFormat.node (f : StringFormat) : Schema Value :=
  ⟨0, .str "string", .format f .null (.bool false), [], [], .null⟩

theorem StringFormat.node_made (f : StringFormat) :
    (Construct.format f .null (.bool false) {}).answer {} = .ok f.node := rfl

/-- A node of a format without checks accepts the texts of the format. -/
theorem format_accepts
    (hs : (Construct.format f coerce abort { error := error }).answer τ = .ok s)
    (hown : σ.kinds.evaluator? (.str "string") = .ok (.builtin .evaluateNode))
    (hf : ∀ t, f.accepts t = true ↔ P t.toList) : s.AcceptsTexts host ctx σ P := by
  obtain ⟨hform, hkind, hchecks⟩ := make_ok rfl (Prod.ext hs rfl)
  intro t w
  have hread : ∀ recur acceptsAbsent, evaluateForm host ctx recur acceptsAbsent s (.str t) =
      pure (.ready (.ok (.str t))) := by
    intro recur acceptsAbsent
    rw [evaluateForm, hform]
    dsimp only
    unfold Scalar.string
    split <;> rfl
  have hverdict : s.form.verdict (.str t) = none ↔ P t.toList := by
    rw [hform, Form.verdict, ← hf]
    split <;> simp_all
  rw [safeParse_at_once (hkind ▸ hown) hchecks hread]
  constructor
  · rintro ⟨hw, hnone⟩
    obtain rfl : w = .str t := (congrArg Result.value hw).symm
    exact ⟨rfl, hverdict.1 hnone⟩
  · rintro ⟨rfl, ht⟩
    exact ⟨rfl, hverdict.2 ht⟩

end Assay
