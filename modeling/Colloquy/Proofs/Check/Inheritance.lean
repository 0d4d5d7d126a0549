import Colloquy.Check.Basic
import Colloquy.Proofs.Check.Rule
import Colloquy.Proofs.Diagnostic.Bag

/-! # Outer layers only remove findings

The rules fall into two groups. Some look names up in the merged configuration and complain about what they do
not find. With more layers they find more, so they complain less, and what is left of their findings is as it
was, since these consist of a code, a span and a message only. The other rules do not look at the configuration
at all. The two groups have different codes, so no finding of one is dropped as a repetition of one of the other.
-/

namespace Colloquy

namespace Rule

variable {s : Subject} {outer : List Layer} {d : Diagnostic}

/-- The findings about what is not in the configuration. -/
def lookups (s : Subject) : List Diagnostic := headerPresence s ++ prompts s ++ references s ++ toolTargets s

/-- The findings that the configuration has no part in. -/
def intrinsic (s : Subject) : List Diagnostic := headerFault s ++ duplicates s ++ hooks s ++ links s

theorem mem_structural_iff : d ∈ structural s ↔ d ∈ lookups s ∨ d ∈ intrinsic s := by
  simp only [structural, lookups, intrinsic, List.mem_append]
  tauto

def lookupCodes : List Code := [.headerMissing, .missingPrompt, .unknownInterlocutor, .unknownAgent, .unknownKit]

/-! ## Lookups -/

/-- The diagnostic is an error with a code for lookups, and has no notes and no fixes. -/
inductive IsLookup : Diagnostic → Prop where
  | error {code : Code} (span : Span) (message : Bytes) : code ∈ lookupCodes → IsLookup (.error code span message)

theorem IsLookup.code (lookup : IsLookup d) : d.code ∈ lookupCodes := by
  cases lookup with
  | error span message member => exact member

theorem IsLookup.eq_of_key_eq {e : Diagnostic} (own : IsLookup d) (other : IsLookup e) (same : d.key = e.key) :
    d = e := by
  obtain ⟨code, span, message⟩ := Diagnostic.key_inj same
  cases own with
  | error =>
      cases other with
      | error =>
          cases code
          cases span
          cases message
          rfl

theorem isLookup_of_mem_lookups (member : d ∈ lookups s) : IsLookup d := by
  simp only [lookups, List.mem_append] at member
  obtain ((found | found) | found) | found := member
  · obtain ⟨-, rfl⟩ := mem_headerPresence.mp found
    exact .error _ _ (by decide)
  · obtain ⟨it, -, -, -, rfl⟩ := mem_prompts.mp found
    exact .error _ _ (by decide)
  · obtain ⟨r, -, -, -, rfl⟩ := mem_references.mp found
    exact .error _ _ (by decide)
  · obtain ⟨t, -, ⟨-, -, rfl⟩ | ⟨-, -, rfl⟩⟩ := mem_toolTargets.mp found
    · exact .error _ _ (by decide)
    · exact .error _ _ (by decide)

section Covered

variable (covers : (Subject.spec { s with outer }).Covers s.spec)
include covers

theorem headerPresence_covered (member : d ∈ headerPresence { s with outer }) : d ∈ headerPresence s := by
  obtain ⟨missing, rfl⟩ := mem_headerPresence.mp member
  exact mem_headerPresence.mpr ⟨missing.imp_right covers.interlocutors, rfl⟩

theorem prompts_covered (member : d ∈ prompts { s with outer }) : d ∈ prompts s := by
  obtain ⟨it, listed, named, missing, rfl⟩ := mem_prompts.mp member
  exact mem_prompts.mpr ⟨it, listed, named, covers.prompt _ missing, rfl⟩

theorem references_covered (member : d ∈ references { s with outer }) : d ∈ references s := by
  obtain ⟨r, listed, speaks, missing, rfl⟩ := mem_references.mp member
  exact mem_references.mpr ⟨r, listed, speaks, covers.interlocutor _ missing, rfl⟩

theorem toolTargets_covered (member : d ∈ toolTargets { s with outer }) : d ∈ toolTargets s := by
  obtain ⟨t, listed, ⟨agent, missing, rfl⟩ | ⟨kit, missing, rfl⟩⟩ := mem_toolTargets.mp member
  · exact mem_toolTargets.mpr ⟨t, listed, .inl ⟨agent, covers.interlocutor _ missing, rfl⟩⟩
  · exact mem_toolTargets.mpr ⟨t, listed, .inr ⟨kit, covers.kit _ missing, rfl⟩⟩

theorem lookups_covered (member : d ∈ lookups { s with outer }) : d ∈ lookups s := by
  simp only [lookups, List.mem_append] at member ⊢
  obtain ((found | found) | found) | found := member
  · exact .inl (.inl (.inl (headerPresence_covered covers found)))
  · exact .inl (.inl (.inr (prompts_covered covers found)))
  · exact .inl (.inr (references_covered covers found))
  · exact .inr (toolTargets_covered covers found)

end Covered

/-! ## Findings without configuration -/

def hookCodes : List Code := [.hookWithoutAction, .unknownEvent, .hooksNotList]

theorem code_of_mem_hooks (member : d ∈ hooks s) : d.code ∈ hookCodes := by
  obtain ⟨h, -, found⟩ := mem_hooks.mp member
  obtain ⟨-, i, -, found⟩ | ⟨-, rfl⟩ := mem_hookList.mp found
  · obtain ⟨-, rfl⟩ | ⟨e, -, -, rfl⟩ := mem_hook.mp found
    · exact (by decide : Code.hookWithoutAction ∈ hookCodes)
    · exact (by decide : Code.unknownEvent ∈ hookCodes)
  · exact (by decide : Code.hooksNotList ∈ hookCodes)

theorem code_of_mem_links (member : d ∈ links s) : d.code = .relativeFileUrl := by
  obtain ⟨l, -, -, rfl⟩ := mem_links.mp member
  split <;> rfl

theorem code_of_mem_intrinsic (member : d ∈ intrinsic s) : d.code ∉ lookupCodes := by
  simp only [intrinsic, List.mem_append] at member
  obtain ((found | found) | found) | found := member
  · obtain ⟨f, span, -, rfl⟩ := mem_headerFault.mp found
    exact (by decide : Code.headerFault ∉ lookupCodes)
  · obtain found | found := isRepeated_of_mem_duplicates found
    · rw [found.code]
      decide
    · rw [found.code]
      decide
  · have apart : ∀ code ∈ hookCodes, code ∉ lookupCodes := by decide
    exact apart d.code (code_of_mem_hooks found)
  · rw [code_of_mem_links found]
    decide

/-- The codes of names that are declared more than once. -/
def repetitionCodes : List Code := [.duplicateName, .duplicateMacro]

theorem mem_structural_iff_duplicates (code : d.code ∈ repetitionCodes) : d ∈ structural s ↔ d ∈ duplicates s := by
  have apart : ∀ code ∈ repetitionCodes, code ∉ lookupCodes ∧ code ∉ hookCodes := by decide
  rw [mem_structural_iff]
  simp only [intrinsic, List.mem_append]
  constructor
  · rintro (lookup | ((found | found) | found) | found)
    · exact absurd (isLookup_of_mem_lookups lookup).code (apart _ code).1
    · obtain ⟨f, span, -, rfl⟩ := mem_headerFault.mp found
      exact absurd code (by decide : Code.headerFault ∉ repetitionCodes)
    · exact found
    · exact absurd (code_of_mem_hooks found) (apart _ code).2
    · rw [code_of_mem_links found] at code
      exact absurd code (by decide)
  · intro found
    exact .inr (.inl (.inl (.inr found)))

/-- A finding whose code is not for lookups is looked for in vain among the lookups. -/
theorem find?_structural (other : d.code ∉ lookupCodes) :
    (structural s).find? (fun e => e.key = d.key) = (intrinsic s).find? (fun e => e.key = d.key) := by
  have absent : (lookups s).find? (fun e => e.key = d.key) = none := by
    refine List.find?_eq_none.mpr fun e member same => other ?_
    obtain ⟨code, -, -⟩ := Diagnostic.key_inj (of_decide_eq_true same)
    exact code ▸ (isLookup_of_mem_lookups member).code
  simp only [lookups, List.find?_append, Option.or_eq_none_iff] at absent
  obtain ⟨⟨⟨presence, prompts⟩, references⟩, targets⟩ := absent
  simp only [structural, intrinsic, List.find?_append, presence, prompts, references, targets, Option.none_or,
    Option.or_none]

theorem mem_lookups_of_code (member : d ∈ structural s) (code : d.code ∈ lookupCodes) : d ∈ lookups s := by
  obtain lookup | intrinsic := mem_structural_iff.mp member
  · exact lookup
  · exact absurd code (code_of_mem_intrinsic intrinsic)

/-- The findings of the rule that raises a code for lookups. -/
def lookup (code : Code) (s : Subject) : List Diagnostic :=
  if code = .headerMissing then headerPresence s
  else if code = .missingPrompt then prompts s
  else if code = .unknownInterlocutor then references s
  else toolTargets s

theorem mem_lookup (member : d ∈ structural s) (code : d.code ∈ lookupCodes) : d ∈ lookup d.code s := by
  have found := mem_lookups_of_code member code
  simp only [lookups, List.mem_append] at found
  obtain ((found | found) | found) | found := found
  · obtain ⟨-, rfl⟩ := mem_headerPresence.mp found
    exact found
  · obtain ⟨it, -, -, -, rfl⟩ := mem_prompts.mp found
    exact found
  · obtain ⟨r, -, -, -, rfl⟩ := mem_references.mp found
    exact found
  · obtain ⟨t, -, ⟨-, -, rfl⟩ | ⟨-, -, rfl⟩⟩ := mem_toolTargets.mp found
    · exact found
    · exact found

theorem lookup_subset (s : Subject) (code : Code) : lookup code s ⊆ lookups s := by
  intro d member
  unfold lookup at member
  simp only [lookups, List.mem_append]
  split_ifs at member
  · exact .inl (.inl (.inl member))
  · exact .inl (.inl (.inr member))
  · exact .inl (.inr member)
  · exact .inr member

/-- What is reported with a code for lookups is what the rule for it finds. -/
theorem mem_document_of_lookup {limit : Int} (unlimited : limit ≤ 0) {code : Code} (listed : code ∈ lookupCodes) :
    (d ∈ Check.document limit s ∧ d.code = code) ↔ d ∈ lookup code s ∧ d.code = code := by
  refine and_congr_left ?_
  rintro rfl
  constructor
  · intro member
    exact mem_lookup (Bag.mem_of_mem_finish member) listed
  · intro member
    have own := lookup_subset s _ member
    refine (Bag.mem_finish_extend_of_alone unlimited fun e among same => ?_).mpr (mem_structural_iff.mpr (.inl own))
    have other := mem_lookups_of_code among ((Diagnostic.key_inj same).1 ▸ listed)
    exact (isLookup_of_mem_lookups other).eq_of_key_eq (isLookup_of_mem_lookups own) same

/-- The rules see the outer layers only through the merged configuration. -/
theorem structural_congr {outer' : List Layer}
    (same : Subject.spec { s with outer } = Subject.spec { s with outer := outer' }) :
    structural { s with outer } = structural { s with outer := outer' } := by
  unfold structural headerPresence prompts references toolTargets
  rw [same]
  rfl

end Rule

namespace Check

/-- With more layers below the header every finding on a document is one that there was before, and a layer that
could not be read makes no difference. -/
theorem outer_layers_only_remove (s : Subject) (outer : List Layer) (more : s.outer.Sublist outer) (limit : Int)
    (unlimited : limit ≤ 0) :
    (∀ d ∈ document limit { s with outer }, d ∈ document limit s) ∧
    ∀ before broken after, outer = before ++ broken :: after → broken.fault ≠ none →
      document limit { s with outer } = document limit { s with outer := before ++ after } := by
  refine ⟨?_, ?_⟩
  · intro d member
    have found := (Bag.mem_finish_extend_iff unlimited).mp member
    by_cases lookup : d.code ∈ Rule.lookupCodes
    · have covers := Spec.covers_merge ((more.append (List.Sublist.refl [s.header])).map some)
      have missing := Rule.mem_lookups_of_code (List.mem_of_find?_eq_some found) lookup
      have listed : d ∈ Rule.structural s := Rule.mem_structural_iff.mpr (.inl (Rule.lookups_covered covers missing))
      -- What is kept for the key of `d` is a lookup as well, and so it is `d`.
      obtain ⟨e, kept, same⟩ := Bag.exists_mem_finish unlimited listed
      have code := (Diagnostic.key_inj same).1
      have other := Rule.mem_lookups_of_code (Bag.mem_of_mem_finish kept) (code ▸ lookup)
      have equal := (Rule.isLookup_of_mem_lookups other).eq_of_key_eq (Rule.isLookup_of_mem_lookups missing) same
      exact equal ▸ kept
    · apply (Bag.mem_finish_extend_iff unlimited).mpr
      rw [Rule.find?_structural lookup] at found ⊢
      exact found
  · rintro before broken after rfl faulty
    have same := Spec.merge_unreadable faulty (before.map some) ((after ++ [s.header]).map some)
    have spec : Subject.spec { s with outer := before ++ broken :: after } =
        Subject.spec { s with outer := before ++ after } := by
      simpa [Subject.spec] using same
    rw [document, document, Rule.structural_congr spec]

/-- A prompt from below removes the finding that there is none; the finding on a kit stays. -/
theorem outer_layers_only_remove_prompt :
    let s := Subject.ofLayers [] [] (utf8 "---\ninterlocutor: \x7bname: Bram, tools: [kit: k]\x7d\n---\n")
    let shared := Layer.ofText ⟨.workspace, []⟩ (utf8 "interlocutor: \x7bname: Bram, prompt: p\x7d") 0
    let broken := Layer.ofText ⟨.workspace, []⟩ (utf8 "kits: [") 0
    let outer := [shared, broken]
    (Rule.prompts s).length = 1 ∧ Rule.prompts { s with outer } = [] ∧
    (∃ d ∈ document 0 { s with outer }, d.code = .unknownKit ∧ d ∈ document 0 s) ∧
    document 0 { s with outer } = document 0 { s with outer := [shared] } := by
  intro s shared broken outer
  obtain ⟨kept, same⟩ := outer_layers_only_remove s outer (List.nil_sublist _) 0 (Int.le_refl 0)
  refine ⟨by decide +kernel, by decide +kernel, ?_, same [shared] broken [] rfl (by decide +kernel)⟩
  have raised : Rule.toolTargets { s with outer } =
      [.error .unknownKit ⟨39, 47⟩ (utf8 "Unknown kit: k")] := by decide +kernel
  have listed : .error .unknownKit ⟨39, 47⟩ (utf8 "Unknown kit: k") ∈ Rule.structural { s with outer } := by
    simp only [Rule.structural, List.mem_append, raised, List.mem_singleton, true_or, or_true]
  obtain ⟨d, found, same⟩ := Bag.exists_mem_finish (Int.le_refl 0) listed
  exact ⟨d, found, (Diagnostic.key_inj same).1, kept d found⟩

end Check

end Colloquy
