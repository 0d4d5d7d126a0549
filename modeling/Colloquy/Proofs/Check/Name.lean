import Colloquy.Proofs.Check.Inheritance
import Colloquy.Proofs.Outline.Boundary
import Colloquy.Proofs.Outline.Replacement
import Colloquy.Proofs.Text.LineIndex

/-! # Names that are unknown or declared again

The rules on references read the merged configuration, but what they report can be told from the layers: a reference is
reported if no layer that could be read declares what it names. The rules on repeated names put the entries of the
header into groups; each entry of a group is reported with all the others. In both cases findings that share a key are
the same finding, so none of them is lost as a repetition.
-/

namespace Colloquy

/-! ## Names that nothing answers to -/

namespace Rule

variable {s : Subject} {d : Diagnostic}

theorem mem_toolTargets_agent : (d ∈ toolTargets s ∧ d.code = .unknownAgent) ↔ ∃ t ∈ s.header.tools,
    t.kind = utf8 "agent" ∧ s.spec.interlocutor? t.target = none ∧
      d = .error .unknownAgent t.span (utf8 "Agent tool references unknown interlocutor: " ++ t.target) := by
  constructor
  · rintro ⟨member, code⟩
    obtain ⟨t, listed, ⟨agent, missing, rfl⟩ | ⟨-, -, rfl⟩⟩ := mem_toolTargets.mp member
    · exact ⟨t, listed, agent, missing, rfl⟩
    · exact absurd code (by decide : Code.unknownKit ≠ .unknownAgent)
  · rintro ⟨t, listed, agent, missing, rfl⟩
    exact ⟨mem_toolTargets.mpr ⟨t, listed, .inl ⟨agent, missing, rfl⟩⟩, rfl⟩

theorem mem_toolTargets_kit : (d ∈ toolTargets s ∧ d.code = .unknownKit) ↔ ∃ t ∈ s.header.tools,
    t.kind = utf8 "kit" ∧ s.spec.kit? t.target = none ∧
      d = .error .unknownKit t.span (utf8 "Unknown kit: " ++ t.target) := by
  constructor
  · rintro ⟨member, code⟩
    obtain ⟨t, listed, ⟨-, -, rfl⟩ | ⟨kit, missing, rfl⟩⟩ := mem_toolTargets.mp member
    · exact absurd code (by decide : Code.unknownAgent ≠ .unknownKit)
    · exact ⟨t, listed, kit, missing, rfl⟩
  · rintro ⟨t, listed, kit, missing, rfl⟩
    exact ⟨mem_toolTargets.mpr ⟨t, listed, .inr ⟨kit, missing, rfl⟩⟩, rfl⟩

theorem code_of_mem_references (member : d ∈ references s) : d.code = .unknownInterlocutor := by
  obtain ⟨r, -, -, -, rfl⟩ := mem_references.mp member
  rfl

theorem code_of_mem_prompts (member : d ∈ prompts s) : d.code = .missingPrompt := by
  obtain ⟨it, -, -, -, rfl⟩ := mem_prompts.mp member
  rfl

end Rule

namespace Outline

variable {text : Bytes}

/-- The directive is to let somebody speak, and does not start in an assistant's turn. -/
def Addresses (o : Outline) (r : Directive) : Prop :=
  (r.key = utf8 "ask" ∨ r.key = utf8 "aside") ∧
    ∀ t ∈ o.turns, t.speaker = .assistant → ¬ (t.extent.start ≤ r.extent.start ∧ r.extent.start < t.extent.stop)

instance (o : Outline) (r : Directive) : Decidable (o.Addresses r) := inferInstanceAs (Decidable (_ ∧ _))

theorem addresses_iff {r : Directive} (listed : r ∈ (ofText text).directives) :
    (ofText text).Addresses r ↔
      Builtin.isSpeaker r.key = true ∧ (ofText text).insideAssistant r.extent.start = false := by
  have inside : (r.extent.start : Int) < text.length := by
    obtain ⟨name, tail, begins⟩ := Directive.exists_begins listed
    have length := congrArg List.length begins.written
    rw [List.length_drop, List.length_cons] at length
    omega
  refine and_congr (by simp [Builtin.isSpeaker]) ?_
  rw [Bool.eq_false_iff, ne_eq, insideAssistant_iff inside]
  simp [Extent.holds]

/-- In a short text no two directives have contents with the same span. -/
theorem eq_of_inner_span {a b : Directive} (short : text.length < 2 ^ 32) (first : a ∈ (ofText text).directives)
    (second : b ∈ (ofText text).directives)
    (same : Span.of a.inner.start a.inner.stop = Span.of b.inner.start b.inner.stop) : a = b := by
  have start : ∀ d ∈ (ofText text).directives, (Span.of d.inner.start d.inner.stop).start.toNat = d.inner.start := by
    intro d member
    have whole := (isWhole_directive member).2
    exact Span.start_of (Nat.lt_of_le_of_lt whole.stop.le_length short) whole.le
  exact Directive.eq_of_inner first second (by rw [← start a first, same, start b second])

end Outline

namespace Check

/-- What is reported about names is exactly what no readable layer answers to: directives and agent tools that name
    no interlocutor, tools that name no kit, and interlocutors of the header without a prompt from any layer. Spans of
    a short text tell the directives apart, so each of them is reported just when it is such a one. -/
theorem unanswered_names_reported {outer : List Layer}
    (read : ∀ l ∈ outer, ∃ source text base, Layer.Decoded source text base l) (docPath text : Bytes) {limit : Int}
    (unlimited : limit ≤ 0) :
    let s := Subject.ofLayers outer docPath text
    let layers := outer ++ [s.header]
    let found := document limit s
    (∀ d, (d ∈ found ∧ d.code = .unknownInterlocutor) ↔ ∃ r ∈ s.outline.directives, s.outline.Addresses r ∧
      ¬ Layer.Names layers (Bytes.trim (r.inner.of text)) ∧
      d = .error .unknownInterlocutor (Span.of r.inner.start r.inner.stop)
        (utf8 "Unknown interlocutor in :ask/:aside: " ++ Bytes.trim (r.inner.of text))) ∧
    (text.length < 2 ^ 32 → ∀ r ∈ s.outline.directives,
      (∃ d ∈ found, d.code = .unknownInterlocutor ∧ d.span = Span.of r.inner.start r.inner.stop) ↔
        s.outline.Addresses r ∧ ¬ Layer.Names layers (Bytes.trim (r.inner.of text))) ∧
    (∀ d, (d ∈ found ∧ d.code = .unknownAgent) ↔ ∃ t ∈ s.header.tools, t.kind = utf8 "agent" ∧
      ¬ Layer.Names layers t.target ∧
      d = .error .unknownAgent t.span (utf8 "Agent tool references unknown interlocutor: " ++ t.target)) ∧
    (∀ d, (d ∈ found ∧ d.code = .unknownKit) ↔ ∃ t ∈ s.header.tools, t.kind = utf8 "kit" ∧
      ¬ Layer.NamesKit layers t.target ∧ d = .error .unknownKit t.span (utf8 "Unknown kit: " ++ t.target)) ∧
    ∀ d, (d ∈ found ∧ d.code = .missingPrompt) ↔ ∃ it ∈ s.header.interlocutors, it.name ≠ [] ∧
      ¬ Layer.Prompts layers it.name ∧
      d = .error .missingPrompt it.nameSpan (utf8 "Interlocutor " ++ it.name ++ utf8 " needs a prompt") := by
  intro s layers found
  have kits : ∀ l ∈ layers, ∀ k ∈ l.kits, k.name ≠ [] := by
    intro l member
    obtain outer | header := List.mem_append.mp member
    · obtain ⟨source, text, base, decoded⟩ := read l outer
      exact decoded.kit_named
    · obtain rfl := List.mem_singleton.mp header
      exact (Layer.decoded_ofText _ _ _).kit_named
  have unknown : ∀ name, s.spec.interlocutor? name = none ↔ ¬ Layer.Names layers name :=
    fun _ => Spec.interlocutor?_eq_none_iff_not_names
  have references : ∀ d, (d ∈ found ∧ d.code = .unknownInterlocutor) ↔ ∃ r ∈ s.outline.directives,
      s.outline.Addresses r ∧ ¬ Layer.Names layers (Bytes.trim (r.inner.of text)) ∧
      d = .error .unknownInterlocutor (Span.of r.inner.start r.inner.stop)
        (utf8 "Unknown interlocutor in :ask/:aside: " ++ Bytes.trim (r.inner.of text)) := by
    intro d
    rw [Rule.mem_document_of_lookup unlimited (by decide)]
    refine (and_iff_left_of_imp Rule.code_of_mem_references).trans (Rule.mem_references.trans ?_)
    refine exists_congr fun r => and_congr_right fun listed => ?_
    exact and_congr (Outline.addresses_iff listed).symm (and_congr_left' (unknown _))
  refine ⟨references, ?_, ?_, ?_, ?_⟩
  · intro short r listed
    constructor
    · rintro ⟨d, member, code, span⟩
      obtain ⟨r', listed', addresses, missing, rfl⟩ := (references d).mp ⟨member, code⟩
      obtain rfl : r' = r := Outline.eq_of_inner_span short listed' listed span
      exact ⟨addresses, missing⟩
    · rintro ⟨addresses, missing⟩
      obtain ⟨member, code⟩ := (references _).mpr ⟨r, listed, addresses, missing, rfl⟩
      exact ⟨_, member, code, rfl⟩
  · intro d
    rw [Rule.mem_document_of_lookup unlimited (by decide)]
    refine Rule.mem_toolTargets_agent.trans (exists_congr fun t => and_congr_right fun _ => ?_)
    exact and_congr_right fun _ => and_congr_left' (unknown _)
  · intro d
    rw [Rule.mem_document_of_lookup unlimited (by decide)]
    refine Rule.mem_toolTargets_kit.trans (exists_congr fun t => and_congr_right fun _ => ?_)
    exact and_congr_right fun _ => and_congr_left' (Spec.kit?_eq_none_iff_not_names kits)
  · intro d
    rw [Rule.mem_document_of_lookup unlimited (by decide)]
    refine (and_iff_left_of_imp Rule.code_of_mem_prompts).trans (Rule.mem_prompts.trans ?_)
    refine exists_congr fun it => and_congr_right fun _ => and_congr_right fun named => ?_
    exact and_congr_left' (Spec.hasPrompt_eq_false_iff_not_prompts named)

/-- A kit that a readable layer declares, and a name that only a broken one would. -/
theorem unanswered_names_reported_broken :
    let text := utf8 "---\ninterlocutor: \x7bname: Bo, tools: [kit: k, agent: Al]\x7d\n---\n"
    let outer := ["kits: [\x7bname: k\x7d]", "interlocutor: [name: Al"].map
      fun text => Layer.ofText ⟨.workspace, []⟩ (utf8 text) 0
    let found := document 0 (Subject.ofLayers outer [] text)
    .error .unknownAgent ⟨45, 56⟩ (utf8 "Agent tool references unknown interlocutor: Al") ∈ found ∧
    ∀ d ∈ found, d.code ≠ .unknownKit := by
  intro text outer found
  have read : ∀ l ∈ outer, ∃ source text base, Layer.Decoded source text base l := by
    intro l member
    obtain ⟨_, -, rfl⟩ := List.mem_map.mp member
    exact ⟨_, _, _, Layer.decoded_ofText _ _ _⟩
  obtain ⟨-, -, agents, kits, -⟩ := unanswered_names_reported read [] text (Int.le_refl 0)
  refine ⟨((agents _).mpr (by decide +kernel)).1, fun d member code => ?_⟩
  obtain ⟨t, listed, kit, missing, -⟩ := (kits d).mp ⟨member, code⟩
  have known : ∀ t ∈ (Subject.ofLayers outer [] text).header.tools, t.kind = utf8 "kit" →
      Layer.NamesKit (outer ++ [(Subject.ofLayers outer [] text).header]) t.target := by decide +kernel
  exact missing (known t listed kit)

end Check

/-! ## Names that are declared again -/

/-- The interlocutors of a layer that have a name. -/
def Layer.named (l : Layer) : List Interlocutor := l.interlocutors.filter fun it => !it.name.isEmpty

namespace Rule

section Repetitions

variable {α : Type} [DecidableEq α] {key : α → Bytes} {code : Code} {message : α → Bytes} {span : α → Span}
  {xs : List α} {d : Diagnostic}

/-- The other entries with the key of an entry, in their order. -/
def counterparts (key : α → Bytes) (xs : List α) (x : α) : List α := xs.filter fun y => key y = key x ∧ y ≠ x

/-- The findings on the entries that have counterparts, each with notes on all of these. -/
def repetitions (code : Code) (key message : α → Bytes) (span : α → Span) (xs : List α) : List Diagnostic :=
  (xs.filter fun x => counterparts key xs x ≠ []).map fun x => repetition code message span x (counterparts key xs x)

theorem others_eq_filter {group : List α} (once : group.Nodup) {i : Nat} (inside : i < group.length) :
    others group i = group.filter fun y => y ≠ group[i] := by
  rw [others, ← List.eraseIdx_eq_take_drop_succ, ← once.erase_getElem i inside, once.erase_eq_filter]
  exact List.filter_congr fun y _ => by simp [bne, beq_eq_decide]

theorem mem_repeated_of_nodup {group : List α} (once : group.Nodup) :
    d ∈ repeated code message span group ↔ ∃ x ∈ group, (group.filter fun y => y ≠ x) ≠ [] ∧
      d = repetition code message span x (group.filter fun y => y ≠ x) := by
  rw [mem_repeated]
  constructor
  · rintro ⟨i, inside, some, rfl⟩
    rw [others_eq_filter once inside] at some ⊢
    exact ⟨_, List.getElem_mem inside, some, rfl⟩
  · rintro ⟨x, listed, some, rfl⟩
    obtain ⟨i, inside, rfl⟩ := List.getElem_of_mem listed
    rw [← others_eq_filter once inside] at some ⊢
    exact ⟨i, inside, some, rfl⟩

theorem filter_group {x y : α} (same : key y = key x) :
    ((xs.filter fun z => key z == key x).filter fun z => z ≠ y) = counterparts key xs y := by
  rw [List.filter_filter, counterparts, same]
  exact List.filter_congr fun z _ => by simp [beq_eq_decide, Bool.and_comm]

theorem mem_repetitions (once : xs.Nodup) :
    d ∈ (groups key xs).flatMap (repeated code message span) ↔ d ∈ repetitions code key message span xs := by
  simp only [List.mem_flatMap, repetitions, List.mem_map, List.mem_filter, decide_eq_true_eq]
  constructor
  · rintro ⟨group, listed, member⟩
    obtain ⟨x, -, rfl⟩ := mem_groups.mp listed
    obtain ⟨y, inside, some, rfl⟩ := (mem_repeated_of_nodup (once.filter _)).mp member
    obtain ⟨listed, same⟩ := List.mem_filter.mp inside
    rw [filter_group (eq_of_beq same)] at some ⊢
    exact ⟨y, ⟨listed, some⟩, rfl⟩
  · rintro ⟨x, ⟨listed, some⟩, rfl⟩
    refine ⟨_, mem_groups.mpr ⟨x, listed, rfl⟩, (mem_repeated_of_nodup (once.filter _)).mpr ⟨x, ?_, ?_, ?_⟩⟩
    · exact List.mem_filter.mpr ⟨listed, by simp⟩
    · rw [filter_group rfl]
      exact some
    · rw [filter_group rfl]

/-- The findings with a code are those of its pass over the header, as the other pass has a code of its own. -/
theorem mem_structural_own {s : Subject} {own other : List Diagnostic} (listed : code ∈ repetitionCodes)
    (passes : ∀ e, e ∈ duplicates s ↔ e ∈ own ∨ e ∈ other) (marked : ∀ e ∈ own, e.code = code)
    (apart : ∀ e ∈ other, e.code ≠ code) : (d ∈ structural s ∧ d.code = code) ↔ d ∈ own := by
  constructor
  · rintro ⟨member, same⟩
    obtain mine | theirs := (passes d).mp ((mem_structural_iff_duplicates (same ▸ listed)).mp member)
    · exact mine
    · exact absurd same (apart d theirs)
  · intro member
    have same := marked d member
    exact ⟨(mem_structural_iff_duplicates (same ▸ listed)).mpr ((passes d).mpr (.inl member)), same⟩

/-- The findings stand at different spans if the entries do. -/
theorem nodup_span_repetitions (once : (xs.map span).Nodup) :
    ((repetitions code key message span xs).map Diagnostic.span).Nodup := by
  rw [repetitions, List.map_map]
  exact once.sublist (List.filter_sublist.map span)

end Repetitions

end Rule

namespace Check

variable {s : Subject} {code : Code} {limit : Int} {raised : List Diagnostic}

/-- What is reported with a code are all findings with it, in order, if no two of these stand at one span. -/
theorem filter_document (unlimited : limit ≤ 0) (once : (raised.map Diagnostic.span).Nodup)
    (all : ∀ d, (d ∈ Rule.structural s ∧ d.code = code) ↔ d ∈ raised) :
    (document limit s).filter (fun d => d.code = code) = raised.mergeSort Diagnostic.le := by
  have same : ((document limit s).filter fun d => d.code = code).Perm (raised.mergeSort Diagnostic.le) := by
    refine List.Perm.trans ?_ (List.mergeSort_perm _ _).symm
    refine (List.perm_ext_iff_of_nodup ((Bag.nodup_finish _).filter _) (.of_map _ once)).mpr fun d => ?_
    rw [List.mem_filter, decide_eq_true_eq, ← all]
    refine and_congr_left fun own => ?_
    constructor
    · exact Bag.mem_of_mem_finish
    · intro member
      refine (Bag.mem_finish_extend_of_alone unlimited fun e other same => ?_).mpr member
      obtain ⟨code, span, -⟩ := Diagnostic.key_inj same
      exact List.inj_on_of_nodup_map once ((all e).mp ⟨other, code.trans own⟩) ((all d).mp ⟨member, own⟩) span
  have sorted : ((document limit s).filter fun d => d.code = code).Pairwise fun a b => Diagnostic.le a b = true :=
    (List.pairwise_mergeSort Diagnostic.le_trans Diagnostic.le_total _).filter _
  refine List.Perm.eq_of_pairwise ?_ sorted
    (List.pairwise_mergeSort Diagnostic.le_trans Diagnostic.le_total _) same
  intro a b memberA memberB first second
  have listed : ∀ d ∈ raised.mergeSort Diagnostic.le, d ∈ raised := fun d => (List.mergeSort_perm _ _).mem_iff.mp
  exact List.inj_on_of_nodup_map once (listed a (same.mem_iff.mp memberA)) (listed b memberB)
    (Diagnostic.span_eq_of_le first second)

/-- Where entries of the header have different spans, the findings on names that are declared again are one for each
    named interlocutor, and one for each expansion, that has counterparts in the header, at its own span and with notes
    on all of these in their order. The layers below the header have no part in it. -/
theorem repeated_names_reported_once (s : Subject) (outer : List Layer)
    (names : (s.header.named.map Interlocutor.nameSpan).Nodup) (macros : (s.header.macros.map Macro.nameSpan).Nodup)
    {limit : Int} (unlimited : limit ≤ 0) :
    let found := document limit { s with outer }
    found.filter (fun d => d.code = .duplicateName) =
      (Rule.repetitions .duplicateName Interlocutor.name (fun it => utf8 "Duplicate interlocutor name: " ++ it.name)
        Interlocutor.nameSpan s.header.named).mergeSort Diagnostic.le ∧
    found.filter (fun d => d.code = .duplicateMacro) =
      (Rule.repetitions .duplicateMacro Macro.key (fun m => utf8 "Duplicate macro name: " ++ m.name)
        Macro.nameSpan s.header.macros).mergeSort Diagnostic.le := by
  intro found
  have names_all : ∀ d, (d ∈ Rule.structural { s with outer } ∧ d.code = .duplicateName) ↔
      d ∈ Rule.repetitions .duplicateName Interlocutor.name (fun it => utf8 "Duplicate interlocutor name: " ++ it.name)
        Interlocutor.nameSpan s.header.named := by
    intro d
    rw [← Rule.mem_repetitions (.of_map _ names)]
    refine Rule.mem_structural_own (by decide) (fun _ => List.mem_append)
      (fun _ own => (Rule.isRepeated_of_mem_groups own).code) fun _ other => ?_
    rw [(Rule.isRepeated_of_mem_groups other).code]
    decide
  have macros_all : ∀ d, (d ∈ Rule.structural { s with outer } ∧ d.code = .duplicateMacro) ↔
      d ∈ Rule.repetitions .duplicateMacro Macro.key (fun m => utf8 "Duplicate macro name: " ++ m.name)
        Macro.nameSpan s.header.macros := by
    intro d
    rw [← Rule.mem_repetitions (.of_map _ macros)]
    refine Rule.mem_structural_own (by decide) (fun _ => List.mem_append.trans or_comm)
      (fun _ own => (Rule.isRepeated_of_mem_groups own).code) fun _ other => ?_
    rw [(Rule.isRepeated_of_mem_groups other).code]
    decide
  exact ⟨filter_document unlimited (Rule.nodup_span_repetitions names) names_all,
    filter_document unlimited (Rule.nodup_span_repetitions macros) macros_all⟩

/-- Three entries of one name around another one, which is declared below the header as well. -/
theorem repeated_names_reported_once_thrice :
    let s := Subject.ofLayers [] [] (utf8 "---\ninterlocutors:\n- name: A\n- name: B\n- name: A\n- name: A\n---\n")
    let found := document 0 { s with outer := [Layer.ofText ⟨.system, []⟩ (utf8 "interlocutor: \x7bname: B\x7d") 0] }
    ((found.filter fun d => d.code = .duplicateName).map fun d => (d.span, d.notes.map Note.span)) =
      [(⟨21, 28⟩, [⟨41, 48⟩, ⟨51, 58⟩]), (⟨41, 48⟩, [⟨21, 28⟩, ⟨51, 58⟩]), (⟨51, 58⟩, [⟨21, 28⟩, ⟨41, 48⟩])] := by
  intro s found
  have names := (repeated_names_reported_once s
    [Layer.ofText ⟨.system, []⟩ (utf8 "interlocutor: \x7bname: B\x7d") 0] (by decide +kernel) (by decide +kernel)
    (Int.le_refl 0)).1
  rw [names, List.mergeSort_of_pairwise (by decide +kernel)]
  decide +kernel

end Check

end Colloquy
