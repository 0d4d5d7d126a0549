import Colloquy.Proofs.Check.Rule
import Colloquy.Proofs.Diagnostic.Bag

/-! # Errors and warnings of a document

The rules on a document give errors, all but the last: links and models make warnings. As the rule on links is the
last one, errors come before warnings where findings are gathered, and if there is an error at all then the first
finding is one. No limit leaves the first finding out, so no limit makes a faulty document pass.

The findings on a document's structure and those on its models are gathered apart, each with the whole limit, and
then shown one after the other. Each part fits the limit. Both together do if they are not too many and if what is
found on the structure stands before what is found on models, and not otherwise.
-/

namespace Colloquy

deriving instance ReflBEq, LawfulBEq for Severity

namespace Rule

variable {s : Subject} {d : Diagnostic}

/-- The findings of all rules on a document but the one on links. -/
def faults (s : Subject) : List Diagnostic :=
  headerPresence s ++ headerFault s ++ duplicates s ++ prompts s ++ references s ++ toolTargets s ++ hooks s

theorem structural_eq (s : Subject) : structural s = faults s ++ links s := rfl

theorem kind_error {code : Code} (other : code ≠ .unknownModel) {span : Span} {message : Bytes} :
    (Diagnostic.error code span message).severity = .error ∧
      (Diagnostic.error code span message).code ≠ .unknownModel := ⟨rfl, other⟩

theorem kind_of_mem_repeated {α : Type} {code : Code} {message : α → Bytes} {span : α → Span} {group : List α}
    (member : d ∈ repeated code message span group) : d.severity = .error ∧ d.code = code := by
  unfold repeated at member
  split at member
  · simp at member
  · obtain ⟨⟨x, i⟩, _, rfl⟩ := List.mem_map.mp member
    -- notes are added to the finding, and they leave its kind alone
    exact List.foldlRecOn (motive := fun d : Diagnostic => d.severity = .error ∧ d.code = code) _ _ ⟨rfl, rfl⟩
      fun _ held _ _ => held

theorem kind_of_mem_duplicates (member : d ∈ duplicates s) : d.severity = .error ∧ d.code ≠ .unknownModel := by
  obtain found | found := List.mem_append.mp member
  all_goals
    obtain ⟨group, _, found⟩ := List.mem_flatMap.mp found
    obtain ⟨severity, code⟩ := kind_of_mem_repeated found
    exact ⟨severity, code ▸ by decide⟩

theorem kind_of_mem_hooks (member : d ∈ hooks s) : d.severity = .error ∧ d.code ≠ .unknownModel := by
  obtain ⟨h, _, found⟩ := mem_hooks.mp member
  obtain ⟨_, hook, _, found⟩ | ⟨_, rfl⟩ := mem_hookList.mp found
  · obtain ⟨_, rfl⟩ | ⟨e, _, _, rfl⟩ := mem_hook.mp found
    · exact kind_error (by decide)
    · exact kind_error (by decide)
  · exact kind_error (by decide)

theorem kind_of_mem_faults (member : d ∈ faults s) : d.severity = .error ∧ d.code ≠ .unknownModel := by
  simp only [faults, List.mem_append] at member
  obtain (((((found | found) | found) | found) | found) | found) | found := member
  · obtain ⟨_, rfl⟩ := mem_headerPresence.mp found
    exact kind_error (by decide)
  · obtain ⟨f, span, _, rfl⟩ := mem_headerFault.mp found
    exact kind_error (by decide)
  · exact kind_of_mem_duplicates found
  · obtain ⟨it, _, _, _, rfl⟩ := mem_prompts.mp found
    exact kind_error (by decide)
  · obtain ⟨r, _, _, _, rfl⟩ := mem_references.mp found
    exact kind_error (by decide)
  · obtain ⟨t, _, ⟨_, _, rfl⟩ | ⟨_, _, rfl⟩⟩ := mem_toolTargets.mp found
    · exact kind_error (by decide)
    · exact kind_error (by decide)
  · exact kind_of_mem_hooks found

theorem kind_of_mem_links (member : d ∈ links s) : d.severity = .warning ∧ d.code ≠ .unknownModel := by
  obtain ⟨l, _, _, rfl⟩ := mem_links.mp member
  have other : Code.relativeFileUrl ≠ .unknownModel := by decide
  split
  · exact ⟨rfl, other⟩
  · exact ⟨rfl, other⟩

theorem kind_of_mem_models {registry : Registry} (member : d ∈ models registry s) :
    d.severity = .warning ∧ d.code = .unknownModel := by
  obtain ⟨it, _, _, _, rfl⟩ := mem_models.mp member
  exact ⟨rfl, rfl⟩

theorem code_of_mem_structural (member : d ∈ structural s) : d.code ≠ .unknownModel := by
  obtain fault | link := List.mem_append.mp (structural_eq s ▸ member)
  · exact (kind_of_mem_faults fault).2
  · exact (kind_of_mem_links link).2

end Rule

namespace Check

/-- A check with any limit shows an error exactly if one of the rules that give errors has found something. -/
theorem exists_error_iff (limit : Int) (s : Subject) :
    (∃ d ∈ document limit s, d.severity = .error) ↔ Rule.faults s ≠ [] := by
  rw [document, Rule.structural_eq]
  constructor
  · rintro ⟨d, member, error⟩ none
    rw [none, List.nil_append] at member
    have warning := (Rule.kind_of_mem_links (mem_of_mem_collect member)).1
    exact absurd (error.symm.trans warning) (by decide)
  · intro some
    -- the first fault is the first finding of all
    obtain ⟨first, rest, faults⟩ := List.exists_cons_of_ne_nil some
    rw [faults, List.cons_append]
    have member : first ∈ Rule.faults s := faults ▸ List.mem_cons_self
    exact ⟨first, mem_collect_cons, (Rule.kind_of_mem_faults member).1⟩

/-! ## The two parts of what is shown -/

variable {limit : Int} {registry : Option Registry} {s : Subject} {d : Diagnostic} {shown : List Diagnostic}

/-- The findings on models, if models are checked. -/
def modelFindings (limit : Int) (registry : Option Registry) (s : Subject) : List Diagnostic :=
  match registry with
  | none => []
  | some registry => models limit registry s

theorem models_getD (limit : Int) (s : Subject) (checked : registry.isSome = true) :
    models limit (registry.getD (Registry.empty [])) s = modelFindings limit registry s := by
  obtain ⟨registry, rfl⟩ := Option.isSome_iff_exists.mp checked
  rfl

theorem kind_of_mem_modelFindings (member : d ∈ modelFindings limit registry s) :
    d.severity = .warning ∧ d.code = .unknownModel := by
  cases registry with
  | none => exact absurd member List.not_mem_nil
  | some registry => exact Rule.kind_of_mem_models (mem_of_mem_collect member)

theorem fits_modelFindings (limited : 0 < limit) : Diagnostic.Fits limit (modelFindings limit registry s) := by
  cases registry with
  | none => exact ⟨limited.le, List.Pairwise.nil⟩
  | some registry => exact fits_collect limited

/-- A list of findings in two parts that fit the limit, the second of which is on models. -/
def InTwoParts (limit : Int) (shown : List Diagnostic) : Prop :=
  ∃ structural models, shown = structural ++ models ∧ Diagnostic.Fits limit structural ∧
    Diagnostic.Fits limit models ∧ (∀ d ∈ structural, d.code ≠ .unknownModel) ∧ ∀ d ∈ models, d.code = .unknownModel

theorem inTwoParts_append (limited : 0 < limit) :
    InTwoParts limit (document limit s ++ modelFindings limit registry s) := by
  refine ⟨_, _, rfl, fits_collect limited, fits_modelFindings limited, ?_, ?_⟩
  · intro d member
    exact Rule.code_of_mem_structural (mem_of_mem_collect member)
  · intro d member
    exact (kind_of_mem_modelFindings member).2

theorem InTwoParts.filter (parts : InTwoParts limit shown) (keep : Diagnostic → Bool) :
    InTwoParts limit (shown.filter keep) := by
  obtain ⟨structural, models, rfl, fits, fits', known, unknown⟩ := parts
  refine ⟨structural.filter keep, models.filter keep, List.filter_append .., fits.sublist List.filter_sublist,
    fits'.sublist List.filter_sublist, ?_, ?_⟩
  · intro d member
    exact known d (List.mem_of_mem_filter member)
  · intro d member
    exact unknown d (List.mem_of_mem_filter member)

/-- When the whole list fits. -/
theorem InTwoParts.fits_iff (parts : InTwoParts limit shown) :
    Diagnostic.Fits limit shown ↔ (shown.length : Int) ≤ limit ∧
      ∀ d ∈ shown, ∀ e ∈ shown, d.code ≠ .unknownModel → e.code = .unknownModel → d.place ≤ e.place := by
  obtain ⟨structural, models, rfl, fits, fits', known, unknown⟩ := parts
  constructor
  · intro whole
    refine ⟨whole.length_le, ?_⟩
    intro d found e found' isKnown isUnknown
    -- the codes tell in which part each of the two is
    have first : d ∈ structural := (List.mem_append.mp found).resolve_right fun late => isKnown (unknown d late)
    have second : e ∈ models := (List.mem_append.mp found').resolve_left fun early => known e early isUnknown
    exact (List.pairwise_append.mp whole.inOrder).2.2 d first e second
  · rintro ⟨length_le, across⟩
    refine ⟨length_le, List.pairwise_append.mpr ⟨fits.inOrder, fits'.inOrder, ?_⟩⟩
    intro d first e second
    exact across d (List.mem_append_left _ first) e (List.mem_append_right _ second) (known d first) (unknown e second)

/-- Without findings on models the whole list fits. -/
theorem InTwoParts.fits (parts : InTwoParts limit shown) (none : ∀ d ∈ shown, d.code ≠ .unknownModel) :
    Diagnostic.Fits limit shown := by
  obtain ⟨structural, models, rfl, fits, _, _, unknown⟩ := parts
  have empty : models = [] := by
    refine List.eq_nil_iff_forall_not_mem.mpr fun d member => ?_
    exact none d (List.mem_append_right _ member) (unknown d member)
  rw [empty, List.append_nil]
  exact fits

end Check

end Colloquy
