import Colloquy.Check.Rule
import Colloquy.Proofs.Config.Lookup

/-! # What each rule finds

For each rule the findings, as a set: what has to be there for a finding, and what the finding is. What is known
about findings follows from these lemmas without another look at the rules.
-/

namespace Colloquy

deriving instance ReflBEq, LawfulBEq for Code

/-- The tools of a layer's interlocutors and kits. -/
def Layer.tools (l : Layer) : List Tool := l.interlocutors.flatMap Interlocutor.tools ++ l.kits.flatMap Kit.tools

namespace Rule

variable {s : Subject} {d : Diagnostic}

theorem mem_headerPresence : d ∈ headerPresence s ↔
    (s.document.header = none ∨ s.spec.interlocutors = []) ∧
      d = .error .headerMissing (Span.restOfLine s.text 0)
        (utf8 "YAML Header is missing or does not define an interlocutor") := by
  unfold headerPresence
  cases s.document.header <;> cases s.spec.interlocutors <;> simp

theorem mem_headerFault : d ∈ headerFault s ↔ ∃ f span, s.header.fault = some (f, span) ∧
    d = .error .headerFault span
      (utf8 "Invalid YAML in header: " ++ Bytes.dropHead f.message (utf8 "yaml: ")) := by
  unfold headerFault
  cases s.header.fault with
  | none => simp
  | some fault => simp [Prod.ext_iff]

section Groups

variable {α : Type} {key : α → Bytes}

/-- An entry goes to the group with its key, or else makes one behind the others. -/
theorem addToGroup_map {ks : List Bytes} {f : Bytes → List α} (once : ks.Nodup)
    (own : ∀ k ∈ ks, (f k).head?.map key = some k) (x : α) :
    addToGroup key x (ks.map f) =
      if key x ∈ ks then ks.map fun k => if k = key x then f k ++ [x] else f k else ks.map f ++ [[x]] := by
  induction ks with
  | nil => rfl
  | cons k ks ih =>
      obtain ⟨fresh, once⟩ := List.nodup_cons.mp once
      have first := own k List.mem_cons_self
      rw [List.map_cons, addToGroup, first]
      by_cases same : k = key x
      · have others : ∀ k' ∈ ks, (if k' = key x then f k' ++ [x] else f k') = f k' := by
          intro k' member
          have differs : k' ≠ key x := by
            rintro rfl
            exact fresh (same ▸ member)
          exact if_neg differs
        rw [if_pos (by simp [same]), if_pos (by simp [same]), List.map_cons, if_pos same, List.map_congr_left others]
      · rw [if_neg (by simp [same]), ih once fun k member => own k (List.mem_cons_of_mem _ member)]
        have differs : key x ≠ k := Ne.symm same
        by_cases known : key x ∈ ks
        · rw [if_pos known, if_pos (List.mem_cons_of_mem _ known), List.map_cons, if_neg same]
        · rw [if_neg known, if_neg (by simp [differs, known]), List.cons_append]

/-- There is a group for each key, in the order of first entries, with all entries of that key in their order. -/
theorem groups_eq (xs : List α) : groups key xs = (xs.map key).eraseDups.map fun k => xs.filter fun y => key y == k := by
  induction xs using List.reverseRecOn with
  | nil => rfl
  | append_singleton xs x ih =>
      have own : ∀ k ∈ (xs.map key).eraseDups, (xs.filter fun y => key y == k).head?.map key = some k := by
        intro k member
        obtain ⟨y, listed, rfl⟩ := List.mem_map.mp (List.mem_eraseDups.mp member)
        rw [List.head?_filter]
        cases found : xs.find? fun z => key z == key y with
        | none => simpa using List.find?_eq_none.mp found y listed
        | some z => simpa using List.find?_some found
      have step : groups key (xs ++ [x]) = addToGroup key x (groups key xs) := by simp [groups]
      rw [step, ih, addToGroup_map (Spec.nodup_eraseDups _) own, List.map_append, List.map_singleton,
        Spec.eraseDups_concat]
      by_cases known : key x ∈ xs.map key
      · rw [if_pos (List.mem_eraseDups.mpr known), if_pos known]
        refine List.map_congr_left fun k _ => ?_
        by_cases same : k = key x
        · simp [same]
        · simp [same, Ne.symm same]
      · rw [if_neg (mt List.mem_eraseDups.mp known), if_neg known, List.map_append, List.map_singleton]
        have others : ∀ k ∈ (xs.map key).eraseDups,
            ((xs ++ [x]).filter fun y => key y == k) = xs.filter fun y => key y == k := by
          intro k member
          have differs : key x ≠ k := fun same => known (same ▸ List.mem_eraseDups.mp member)
          simp [differs]
        have alone : (xs.filter fun y => key y == key x) = [] := by
          rw [List.filter_eq_nil_iff]
          intro y listed same
          exact known (eq_of_beq same ▸ List.mem_map_of_mem listed)
        rw [List.map_congr_left others, List.filter_append, alone]
        simp

theorem mem_groups {xs group : List α} :
    group ∈ groups key xs ↔ ∃ x ∈ xs, group = xs.filter fun y => key y == key x := by
  simp [groups_eq, eq_comm]

theorem mem_of_mem_others {x : α} {group : List α} {i : Nat} (member : x ∈ others group i) : x ∈ group := by
  obtain early | late := List.mem_append.mp member
  · exact List.mem_of_mem_take early
  · exact List.mem_of_mem_drop late

/-- The finding on an entry, with a note on each of the others. -/
def repetition (code : Code) (message : α → Bytes) (span : α → Span) (x : α) (others : List α) : Diagnostic :=
  { Diagnostic.error code (span x) (message x) with
    notes := others.map fun y => ⟨span y, utf8 "also declared here"⟩ }

theorem foldl_withNote (span : α → Span) (message : Bytes) (ys : List α) (d : Diagnostic) :
    ys.foldl (fun d y => d.withNote (span y) message) d =
      { d with notes := d.notes ++ ys.map fun y => ⟨span y, message⟩ } := by
  induction ys generalizing d with
  | nil => simp
  | cons y ys ih =>
      rw [List.foldl_cons, ih, Diagnostic.withNote, List.map_cons, List.append_assoc, List.singleton_append]

theorem mem_repeated {code : Code} {message : α → Bytes} {span : α → Span} {group : List α} :
    d ∈ repeated code message span group ↔ ∃ i, ∃ inside : i < group.length,
      others group i ≠ [] ∧ d = repetition code message span group[i] (others group i) := by
  have several : ∀ i < group.length, others group i ≠ [] ↔ ¬ group.length < 2 := by
    intro i inside
    rw [← List.length_pos_iff, others, List.length_append, List.length_take, List.length_drop]
    omega
  unfold repeated
  split
  · rename_i few
    simp only [List.not_mem_nil, false_iff]
    rintro ⟨i, inside, some, -⟩
    exact (several i inside).mp some few
  · rename_i many
    rw [List.mem_map]
    constructor
    · rintro ⟨⟨x, i⟩, listed, rfl⟩
      obtain ⟨inside, rfl⟩ := List.mk_mem_zipIdx_iff_getElem?.trans List.getElem?_eq_some_iff |>.mp listed
      exact ⟨i, inside, (several i inside).mpr many, foldl_withNote span _ _ _⟩
    · rintro ⟨i, inside, -, rfl⟩
      have listed := List.mk_mem_zipIdx_iff_getElem?.mpr (List.getElem?_eq_getElem inside)
      exact ⟨(group[i], i), listed, foldl_withNote span _ _ _⟩

/-- The finding points at one of the entries, its notes point at others, and there is no fix. -/
structure IsRepeated (kind : Code) (place : α → Span) (entries : List α) (d : Diagnostic) : Prop where
  code : d.code = kind
  span : ∃ x ∈ entries, d.span = place x
  notes : ∀ n ∈ d.notes, ∃ x ∈ entries, n.span = place x
  fixes : d.fixes = []

theorem isRepeated_of_mem_groups {code : Code} {message : α → Bytes} {span : α → Span} {xs : List α}
    (member : d ∈ (groups key xs).flatMap (repeated code message span)) : IsRepeated code span xs d := by
  obtain ⟨group, listed, member⟩ := List.mem_flatMap.mp member
  obtain ⟨_, -, rfl⟩ := mem_groups.mp listed
  obtain ⟨i, inside, -, rfl⟩ := mem_repeated.mp member
  refine ⟨rfl, ⟨_, List.mem_of_mem_filter (List.getElem_mem inside), rfl⟩, fun n noted => ?_, rfl⟩
  obtain ⟨y, other, rfl⟩ := List.mem_map.mp noted
  exact ⟨y, List.mem_of_mem_filter (mem_of_mem_others other), rfl⟩

end Groups

theorem isRepeated_of_mem_duplicates (member : d ∈ duplicates s) :
    IsRepeated .duplicateName Interlocutor.nameSpan s.header.interlocutors d ∨
      IsRepeated .duplicateMacro Macro.nameSpan s.header.macros d := by
  obtain found | found := List.mem_append.mp member
  · have found := isRepeated_of_mem_groups found
    refine .inl { found with span := ?_, notes := ?_ }
    · obtain ⟨it, listed, same⟩ := found.span
      exact ⟨it, List.mem_of_mem_filter listed, same⟩
    · intro n noted
      obtain ⟨it, listed, same⟩ := found.notes n noted
      exact ⟨it, List.mem_of_mem_filter listed, same⟩
  · exact .inr (isRepeated_of_mem_groups found)

theorem mem_prompts : d ∈ prompts s ↔ ∃ it ∈ s.header.interlocutors,
    it.name ≠ [] ∧ s.spec.hasPrompt it.name = false ∧
      d = .error .missingPrompt it.nameSpan (utf8 "Interlocutor " ++ it.name ++ utf8 " needs a prompt") := by
  simp only [prompts, List.mem_filterMap, Spec.hasPrompt]
  refine exists_congr fun it => and_congr_right fun _ => ?_
  simp [Option.ite_none_left_eq_some, and_assoc, eq_comm (a := d)]

theorem mem_references : d ∈ references s ↔ ∃ r ∈ s.outline.directives,
    (Builtin.isSpeaker r.key = true ∧ s.outline.insideAssistant r.extent.start = false) ∧
      s.spec.interlocutor? (Bytes.trim (r.inner.of s.text)) = none ∧
      d = .error .unknownInterlocutor (Span.of r.inner.start r.inner.stop)
        (utf8 "Unknown interlocutor in :ask/:aside: " ++ Bytes.trim (r.inner.of s.text)) := by
  simp only [references, List.mem_filterMap]
  refine exists_congr fun r => and_congr_right fun _ => ?_
  simp [Option.ite_none_left_eq_some, and_assoc, eq_comm (a := d)]

theorem mem_toolTargets : d ∈ toolTargets s ↔ ∃ t ∈ s.header.tools,
    (t.kind = utf8 "agent" ∧ s.spec.interlocutor? t.target = none ∧
      d = .error .unknownAgent t.span (utf8 "Agent tool references unknown interlocutor: " ++ t.target)) ∨
    (t.kind = utf8 "kit" ∧ s.spec.kit? t.target = none ∧
      d = .error .unknownKit t.span (utf8 "Unknown kit: " ++ t.target)) := by
  simp only [toolTargets, List.mem_filterMap]
  refine exists_congr fun t => and_congr_right fun _ => ?_
  have apart : utf8 "agent" ≠ utf8 "kit" := by decide
  unfold toolTarget
  by_cases agent : t.kind = utf8 "agent"
  · simp [agent, apart, Option.ite_none_left_eq_some, eq_comm (a := d)]
  · simp [agent, Option.ite_none_left_eq_some, eq_comm (a := d)]

theorem mem_hook {h : Hook} : d ∈ hook h ↔
    (h.hasAction = false ∧ d = .error .hookWithoutAction h.span (utf8 "Hook is missing a 'do' field")) ∨
    ∃ e ∈ h.events, hookEvents.any (· == e.name) = false ∧
      d = .error .unknownEvent e.span (utf8 "Unknown hook event " ++ Quoted.encode e.name ++
        utf8 "; expected one of: " ++ Bytes.join (utf8 ", ") hookEvents) := by
  unfold hook
  rw [List.mem_append, List.mem_filterMap]
  refine or_congr ?_ (exists_congr fun e => and_congr_right fun _ => ?_)
  · cases h.hasAction <;> simp
  · cases hookEvents.any (· == e.name) <;> simp [eq_comm (a := d)]

theorem mem_hookList {h : Hooks} : d ∈ hookList h ↔
    (h.isSequence = true ∧ ∃ i ∈ h.items, d ∈ hook i) ∨
    (h.isSequence = false ∧ d = .error .hooksNotList h.span (utf8 "hooks must be a list")) := by
  unfold hookList
  cases h.isSequence <;> simp

theorem mem_hooks : d ∈ hooks s ↔
    ∃ h, (s.header.hooks = some h ∨ ∃ it ∈ s.header.interlocutors, it.hooks = some h) ∧ d ∈ hookList h := by
  simp only [hooks, List.mem_flatMap, List.mem_append, Option.mem_toList, List.mem_filterMap]

theorem mem_links : d ∈ links s ↔ ∃ l ∈ s.outline.links,
    Target.isRelativeFile (l.url.of s.text) = true ∧
      d = match Target.absolute? (l.url.of s.text) with
        | some fixed =>
          (Diagnostic.warning .relativeFileUrl (Span.of l.url.start l.url.stop)
            (utf8 "Relative paths are not allowed in file:// URLs")).withFix (utf8 "Use $PWD-relative file URL")
              [⟨Span.of l.url.start l.url.stop, fixed⟩]
        | none => .warning .relativeFileUrl (Span.of l.url.start l.url.stop)
            (utf8 "Relative paths are not allowed in file:// URLs") := by
  simp only [links, List.mem_filterMap]
  refine exists_congr fun l => and_congr_right fun _ => ?_
  cases Target.absolute? (l.url.of s.text) <;> simp [Option.ite_none_left_eq_some, eq_comm (a := d)]

theorem mem_models {registry : Registry} : d ∈ models registry s ↔ ∃ it ∈ s.header.interlocutors,
    (it.declared.model = true ∧ it.model ≠ [] ∧ providerOf s.spec it ≠ []) ∧
      registry.has? (providerOf s.spec it) it.model = some false ∧
      d = .warning .unknownModel it.modelSpan
        (utf8 "Unknown model for " ++ providerOf s.spec it ++ utf8 ": " ++ it.model) := by
  simp only [models, List.mem_filterMap]
  refine exists_congr fun it => and_congr_right fun _ => ?_
  rw [Option.ite_none_left_eq_some]
  refine and_congr (by simp [and_assoc]) ?_
  split <;> simp_all [eq_comm (a := d)]

end Rule

end Colloquy
