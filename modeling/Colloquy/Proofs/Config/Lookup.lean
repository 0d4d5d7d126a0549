import Colloquy.Proofs.Config.Merge
import Mathlib.Data.List.Flatten

/-! # What is not found in a merged configuration

A name is missing if no entry has it, and has no prompt if no entry of that name has one. So what is missing in
a configuration merged from more layers is missing in one merged from fewer, and what is missing can be told from the
layers without merging them.
-/

namespace Colloquy

namespace Spec

theorem find?_combined_eq_none {α : Type} {key : α → Bytes} {combine : α → α → α}
    (keeps : ∀ x y, key (combine x y) = key x) {xs : List α} {k : Bytes} :
    (combined key combine xs).find? (fun x => key x == k) = none ↔ ∀ x ∈ xs, key x ≠ k := by
  calc (combined key combine xs).find? (fun x => key x == k) = none
      ↔ k ∉ (combined key combine xs).map key := by simp
    _ ↔ k ∉ xs.map key := by rw [keys_combined keeps, List.mem_eraseDups]
    _ ↔ ∀ x ∈ xs, key x ≠ k := by simp

/-- Whether an interlocutor of this name is found that has a prompt. -/
def hasPrompt (s : Spec) (name : Bytes) : Bool := ((s.interlocutor? name).map Interlocutor.hasPrompt).getD false

/-- The entries of readable layers that have a name. -/
def named (layers : List (Option Layer)) : List Interlocutor :=
  ((sound layers).flatMap Layer.interlocutors).filter fun it => !it.name.isEmpty

variable {layers : List (Option Layer)} {name : Bytes}

theorem interlocutor?_eq_none_iff : (merge layers).interlocutor? name = none ↔ ∀ it ∈ named layers, it.name ≠ name :=
  find?_combined_eq_none Interlocutor.name_over

theorem kit?_eq_none_iff :
    (merge layers).kit? name = none ↔ ∀ k ∈ (sound layers).flatMap Layer.kits, k.name ≠ name :=
  find?_combined_eq_none fun _ _ => rfl

theorem hasPrompt_eq_false_iff :
    (merge layers).hasPrompt name = false ↔ ∀ it ∈ named layers, it.name = name → it.hasPrompt = false := by
  unfold hasPrompt
  cases found : (merge layers).interlocutor? name with
  | none =>
      have absent := interlocutor?_eq_none_iff.mp found
      simp_all
  | some it =>
      have same : it.name = name := by simpa using List.find?_some found
      have listed : it ∈ combined Interlocutor.name Interlocutor.over (named layers) :=
        List.mem_of_find?_eq_some found
      have top := stacked_of_mem_combined Interlocutor.name_over listed
      have any := not_congr (Interlocutor.hasPrompt_stacked top)
      simpa [same] using any

theorem mem_named {it : Interlocutor} :
    it ∈ named layers ↔ (∃ l, some l ∈ layers ∧ l.fault = none ∧ it ∈ l.interlocutors) ∧ it.name ≠ [] := by
  simp [named, mem_sound, and_assoc]

theorem mem_names_merge : name ∈ (merge layers).names ↔ ∃ it ∈ named layers, it.name = name := by
  rw [names, merge, keys_combined Interlocutor.name_over, List.mem_eraseDups, List.mem_map]
  rfl

theorem interlocutor?_ne_none {s : Spec} (listed : name ∈ s.names) : s.interlocutor? name ≠ none := by
  obtain ⟨it, member, same⟩ := List.mem_map.mp listed
  intro missing
  exact List.find?_eq_none.mp missing it member (by simp [same])

/-- What is missing in `more` is missing in `less`, be it only a prompt. -/
structure Covers (more less : Spec) : Prop where
  interlocutor : ∀ name, more.interlocutor? name = none → less.interlocutor? name = none
  prompt : ∀ name, more.hasPrompt name = false → less.hasPrompt name = false
  kit : ∀ name, more.kit? name = none → less.kit? name = none

theorem Covers.interlocutors {more less : Spec} (covers : more.Covers less) (empty : more.interlocutors = []) :
    less.interlocutors = [] := by
  apply List.eq_nil_iff_forall_not_mem.mpr
  intro it listed
  have missing := covers.interlocutor it.name (by simp [interlocutor?, empty])
  have found := List.find?_eq_none.mp missing it listed
  simp at found

theorem covers_merge {more : List (Option Layer)} (added : layers.Sublist more) :
    (merge more).Covers (merge layers) := by
  have kept : (sound layers).Sublist (sound more) := added.filterMap _
  have names : named layers ⊆ named more := ((kept.flatMap _).filter _).subset
  refine ⟨?_, ?_, ?_⟩
  · intro name missing
    exact interlocutor?_eq_none_iff.mpr fun it member => interlocutor?_eq_none_iff.mp missing it (names member)
  · intro name missing
    exact hasPrompt_eq_false_iff.mpr fun it member => hasPrompt_eq_false_iff.mp missing it (names member)
  · intro name missing
    exact kit?_eq_none_iff.mpr fun k member => kit?_eq_none_iff.mp missing k ((kept.flatMap _).subset member)

theorem merge_unreadable {broken : Layer} (faulty : broken.fault ≠ none) (before after : List (Option Layer)) :
    merge (before ++ some broken :: after) = merge (before ++ after) := by
  have same : sound (before ++ some broken :: after) = sound (before ++ after) := by
    simp [sound, Layer.isSound, Option.filter, faulty]
  rw [merge, merge, same]

end Spec

/-! ## What the layers declare -/

namespace Layer

variable (layers : List Layer) (name : Bytes)

/-- A layer that could be read declares an interlocutor by this name, which is not empty. -/
def Names : Prop := name ≠ [] ∧ ∃ l ∈ layers, l.fault = none ∧ ∃ it ∈ l.interlocutors, it.name = name

/-- A layer that could be read declares a kit by this name, which is not empty. -/
def NamesKit : Prop := name ≠ [] ∧ ∃ l ∈ layers, l.fault = none ∧ ∃ k ∈ l.kits, k.name = name

/-- A layer that could be read declares an interlocutor by this name that has a prompt. -/
def Prompts : Prop := ∃ l ∈ layers, l.fault = none ∧ ∃ it ∈ l.interlocutors, it.name = name ∧ it.hasPrompt = true

instance : Decidable (Names layers name) := inferInstanceAs (Decidable (_ ∧ _))

instance : Decidable (NamesKit layers name) := inferInstanceAs (Decidable (_ ∧ _))

instance : Decidable (Prompts layers name) := inferInstanceAs (Decidable (∃ l ∈ layers, _))

end Layer

namespace Spec

variable {layers : List Layer} {name : Bytes}

theorem mem_map_some {l : Layer} : some l ∈ layers.map some ↔ l ∈ layers :=
  List.mem_map_of_injective fun _ _ => Option.some.inj

theorem interlocutor?_eq_none_iff_not_names :
    (merge (layers.map some)).interlocutor? name = none ↔ ¬ Layer.Names layers name := by
  rw [interlocutor?_eq_none_iff, Layer.Names]
  constructor
  · rintro missing ⟨some, l, listed, sound, it, declared, rfl⟩
    exact missing it (mem_named.mpr ⟨⟨l, mem_map_some.mpr listed, sound, declared⟩, some⟩) rfl
  · rintro unnamed it member rfl
    obtain ⟨⟨l, listed, sound, declared⟩, some⟩ := mem_named.mp member
    exact unnamed ⟨some, l, mem_map_some.mp listed, sound, it, declared, rfl⟩

theorem kit?_eq_none_iff_not_names (named : ∀ l ∈ layers, ∀ k ∈ l.kits, k.name ≠ []) :
    (merge (layers.map some)).kit? name = none ↔ ¬ Layer.NamesKit layers name := by
  rw [kit?_eq_none_iff, Layer.NamesKit]
  constructor
  · rintro missing ⟨-, l, listed, sound, k, declared, rfl⟩
    exact missing k (List.mem_flatMap.mpr ⟨l, mem_sound.mpr ⟨mem_map_some.mpr listed, sound⟩, declared⟩) rfl
  · rintro unnamed k member rfl
    obtain ⟨l, sound, declared⟩ := List.mem_flatMap.mp member
    obtain ⟨listed, sound⟩ := mem_sound.mp sound
    have listed := mem_map_some.mp listed
    exact unnamed ⟨named l listed k declared, l, listed, sound, k, declared, rfl⟩

theorem hasPrompt_eq_false_iff_not_prompts (filled : name ≠ []) :
    (merge (layers.map some)).hasPrompt name = false ↔ ¬ Layer.Prompts layers name := by
  rw [hasPrompt_eq_false_iff, Layer.Prompts]
  constructor
  · rintro missing ⟨l, listed, sound, it, declared, rfl, prompted⟩
    have none := missing it (mem_named.mpr ⟨⟨l, mem_map_some.mpr listed, sound, declared⟩, filled⟩) rfl
    exact Bool.false_ne_true (none.symm.trans prompted)
  · rintro unnamed it member rfl
    obtain ⟨⟨l, listed, sound, declared⟩, -⟩ := mem_named.mp member
    exact Bool.eq_false_iff.mpr fun prompted => unnamed ⟨l, mem_map_some.mp listed, sound, it, declared, rfl, prompted⟩

end Spec

end Colloquy
