import Colloquy.Config.Spec
import Colloquy.Proofs.Config.Layer
import Mathlib.Data.List.Induction
import Mathlib.Data.List.Nodup

/-! # The last writer wins

Merging walks over all entries once and puts each into the place of the earlier one with its key, combined with
it. So what stands for a key in the end is the stack of its entries, each over those before it, and the keys
stand in the order in which they were first declared. A stack of expansions or kits is its last entry. A stack
of interlocutors has each field from the last entry that sets it: an entry hands down what it does not set
itself, and forgets who set it.
-/

namespace Colloquy

namespace Spec

section Combined

variable {α : Type} {key : α → Bytes} {combine : α → α → α}

/-- Entries with one key, each over those before it. -/
def stacked (combine : α → α → α) : List α → Option α
  | [] => none
  | x :: xs => some (xs.foldl (fun earlier next => combine next earlier) x)

theorem stacked_eq_none_iff {xs : List α} : stacked combine xs = none ↔ xs = [] := by
  cases xs <;> simp [stacked]

theorem stacked_concat (xs : List α) (x : α) :
    stacked combine (xs ++ [x]) = some (match stacked combine xs with
      | some earlier => combine x earlier
      | none => x) := by
  cases xs <;> simp [stacked]

theorem stacked_replace (xs : List α) : stacked (fun next _ => next) xs = xs.getLast? := by
  induction xs using List.reverseRecOn with
  | nil => rfl
  | append_singleton xs x ih =>
      rw [stacked_concat, List.getLast?_concat]
      split <;> rfl

theorem keys_put (keeps : ∀ x y, key (combine x y) = key x) (x : α) (ys : List α) :
    (put key combine x ys).map key = if key x ∈ ys.map key then ys.map key else ys.map key ++ [key x] := by
  induction ys with
  | nil => simp [put]
  | cons y ys ih =>
      by_cases same : key y = key x
      · simp [put, same, keeps]
      · have other : key x ≠ key y := Ne.symm same
        simp only [put, beq_iff_eq, same, if_false, List.map_cons, ih, List.mem_cons, other, false_or]
        split <;> rfl

theorem mem_put {x z : α} {ys : List α} (unique : (ys.map key).Nodup) (member : z ∈ put key combine x ys) :
    (z ∈ ys ∧ key z ≠ key x) ∨ (∃ y ∈ ys, key y = key x ∧ z = combine x y) ∨
      (z = x ∧ key x ∉ ys.map key) := by
  induction ys with
  | nil => exact .inr (.inr (by simpa [put] using member))
  | cons y ys ih =>
      obtain ⟨fresh, unique⟩ := List.nodup_cons.mp unique
      rw [put] at member
      split at member
      · rename_i same
        have same : key y = key x := eq_of_beq same
        obtain rfl | member := List.mem_cons.mp member
        · exact .inr (.inl ⟨y, List.mem_cons_self, same, rfl⟩)
        · refine .inl ⟨List.mem_cons_of_mem _ member, fun again => fresh ?_⟩
          rw [same, ← again]
          exact List.mem_map_of_mem member
      · rename_i other
        have other : key y ≠ key x := by simpa using other
        obtain rfl | member := List.mem_cons.mp member
        · exact .inl ⟨List.mem_cons_self, other⟩
        · obtain ⟨kept, differs⟩ | ⟨y', kept, same, rfl⟩ | ⟨rfl, absent⟩ := ih unique member
          · exact .inl ⟨List.mem_cons_of_mem _ kept, differs⟩
          · exact .inr (.inl ⟨y', List.mem_cons_of_mem _ kept, same, rfl⟩)
          · exact .inr (.inr ⟨rfl, by simpa [Ne.symm other] using absent⟩)

theorem eraseDups_concat (ks : List Bytes) (k : Bytes) :
    (ks ++ [k]).eraseDups = if k ∈ ks then ks.eraseDups else ks.eraseDups ++ [k] := by
  rw [List.eraseDups_append, List.removeAll]
  split
  · rename_i known
    rw [List.filter_cons_of_neg (by simpa using known), List.filter_nil, List.eraseDups_nil, List.append_nil]
  · rename_i fresh
    rw [List.filter_cons_of_pos (by simpa using fresh), List.filter_nil]
    rfl

theorem nodup_eraseDups (ks : List Bytes) : ks.eraseDups.Nodup := by
  induction ks using List.reverseRecOn with
  | nil => exact .nil
  | append_singleton ks k ih =>
      rw [eraseDups_concat]
      split
      · exact ih
      · rename_i fresh
        rw [← List.concat_eq_append]
        exact ih.concat (mt List.mem_eraseDups.mp fresh)

theorem combined_concat (xs : List α) (x : α) :
    combined key combine (xs ++ [x]) = put key combine x (combined key combine xs) := by
  simp [combined]

theorem keys_combined (keeps : ∀ x y, key (combine x y) = key x) (xs : List α) :
    (combined key combine xs).map key = (xs.map key).eraseDups := by
  induction xs using List.reverseRecOn with
  | nil => rfl
  | append_singleton xs x ih =>
      rw [combined_concat, keys_put keeps, ih, List.map_append, List.map_singleton, eraseDups_concat]
      simp only [List.mem_eraseDups]

/-- What stands for a key is the stack of its entries. -/
theorem stacked_of_mem_combined (keeps : ∀ x y, key (combine x y) = key x) {xs : List α} {z : α}
    (member : z ∈ combined key combine xs) : stacked combine (xs.filter fun x => key x = key z) = some z := by
  induction xs using List.reverseRecOn generalizing z with
  | nil => simp [combined] at member
  | append_singleton xs x ih =>
      rw [combined_concat] at member
      rw [List.filter_append]
      have unique : ((combined key combine xs).map key).Nodup := by
        rw [keys_combined keeps]
        exact nodup_eraseDups _
      obtain ⟨kept, other⟩ | ⟨y, kept, same, rfl⟩ | ⟨rfl, absent⟩ := mem_put unique member
      · rw [List.filter_cons_of_neg (by simpa using other.symm), List.filter_nil, List.append_nil]
        exact ih kept
      · have earlier := ih kept
        rw [same] at earlier
        rw [keeps, List.filter_cons_of_pos (by simp), List.filter_nil, stacked_concat, earlier]
      · rw [keys_combined keeps, List.mem_eraseDups] at absent
        have none : xs.filter (fun y => key y = key z) = [] := by
          rw [List.filter_eq_nil_iff]
          intro y inside same
          exact absent (of_decide_eq_true same ▸ List.mem_map_of_mem inside)
        rw [none, List.filter_cons_of_pos (by simp), List.filter_nil]
        rfl

/-- Each key once, in the order of first declaration. -/
def OncePerKey (key : α → Bytes) (entries result : List α) : Prop :=
  (result.map key).Nodup ∧ result.map key = (entries.map key).eraseDups

/-- For each key the last of its entries. -/
def LastOfEach (key : α → Bytes) (entries result : List α) : Prop :=
  OncePerKey key entries result ∧ ∀ x ∈ result, (entries.filter fun e => key e = key x).getLast? = some x

theorem oncePerKey_combined (keeps : ∀ x y, key (combine x y) = key x) (xs : List α) :
    OncePerKey key xs (combined key combine xs) := by
  refine ⟨?_, keys_combined keeps xs⟩
  rw [keys_combined keeps]
  exact nodup_eraseDups _

theorem lastOfEach_combined (key : α → Bytes) (xs : List α) :
    LastOfEach key xs (combined key (fun next _ => next) xs) := by
  have keeps : ∀ next earlier : α, key ((fun next _ => next) next earlier) = key next := fun _ _ => rfl
  refine ⟨oncePerKey_combined keeps xs, ?_⟩
  intro x member
  rw [← stacked_replace]
  exact stacked_of_mem_combined keeps member

end Combined

/-- What the layers declare that are there and could be read, in order. -/
def declared {α : Type} (part : Layer → List α) (layers : List (Option Layer)) : List α :=
  layers.flatMap fun
    | some l => if l.fault = none then part l else []
    | none => []

theorem mem_sound {layers : List (Option Layer)} {l : Layer} : l ∈ sound layers ↔ some l ∈ layers ∧ l.fault = none := by
  simp [sound, Layer.isSound, Option.filter_eq_some_iff]

theorem sound_cons (l : Option Layer) (layers : List (Option Layer)) :
    sound (l :: layers) = (l.filter Layer.isSound).toList ++ sound layers := by
  rw [sound, List.filterMap_cons]
  cases l.filter Layer.isSound <;> rfl

theorem flatMap_sound {α : Type} (part : Layer → List α) (layers : List (Option Layer)) :
    (sound layers).flatMap part = declared part layers := by
  induction layers with
  | nil => rfl
  | cons l layers ih =>
      rw [sound_cons, List.flatMap_append, ih]
      cases l with
      | none => rfl
      | some l => cases broken : l.fault <;> simp [declared, Layer.isSound, Option.filter, broken]

end Spec

namespace Interlocutor

open Spec

variable {entries : List Interlocutor} {it : Interlocutor}

theorem name_over (next earlier : Interlocutor) : (next.over earlier).name = next.name := rfl

/-- A field that an entry hands down unless it sets it comes from the last entry that does. -/
theorem stacked_field {β : Type} (field : Interlocutor → β) {sets : Interlocutor → Bool} {unset : β}
    (hands : ∀ next ∈ entries, ∀ earlier,
      field (next.over earlier) = if sets next then field next else field earlier)
    (empty : ∀ e ∈ entries, sets e = false → field e = unset) (top : stacked Interlocutor.over entries = some it) :
    field it = ((entries.filter sets).getLast?.map field).getD unset := by
  induction entries using List.reverseRecOn generalizing it with
  | nil => simp [stacked] at top
  | append_singleton entries next ih =>
      have last : next ∈ entries ++ [next] := by simp
      rw [stacked_concat, Option.some.injEq] at top
      rw [List.filter_append]
      cases below : stacked Interlocutor.over entries with
      | none =>
          obtain rfl := stacked_eq_none_iff.mp below
          rw [below] at top
          subst top
          cases own : sets next with
          | true => simp [own]
          | false => simpa [own] using empty next last own
      | some earlier =>
          rw [below] at top
          subst top
          have inherited := ih (fun e member => hands e (by simp [member])) (fun e member => empty e (by simp [member]))
            below
          rw [hands next last]
          cases own : sets next with
          | true => simp [own]
          | false => simpa [own] using inherited

theorem hasPrompt_over (next earlier : Interlocutor) :
    (next.over earlier).hasPrompt = (next.hasPrompt || earlier.hasPrompt) := by
  cases own : next.hasPrompt <;> cases below : earlier.hasPrompt <;> simp [Interlocutor.over, own, below]

theorem hasPrompt_stacked (top : stacked Interlocutor.over entries = some it) :
    it.hasPrompt = true ↔ ∃ e ∈ entries, e.hasPrompt = true := by
  induction entries using List.reverseRecOn generalizing it with
  | nil => simp [stacked] at top
  | append_singleton entries next ih =>
      rw [stacked_concat, Option.some.injEq] at top
      cases below : stacked Interlocutor.over entries with
      | none =>
          obtain rfl := stacked_eq_none_iff.mp below
          rw [below] at top
          simp [← top]
      | some earlier =>
          rw [below] at top
          rw [← top, hasPrompt_over, Bool.or_eq_true, ih below]
          simp [or_comm, or_and_right, exists_or]

/-- What the entries of one name come to: each field is that of the last entry that sets it, a prompt that of
the last entry that has one, and the rest is as the last entry has it. -/
structure LastWins (entries : List Interlocutor) (it : Interlocutor) : Prop where
  provider : it.provider =
    ((entries.filter (·.declared.provider)).getLast?.map Interlocutor.provider).getD []
  tools : it.tools = ((entries.filter (·.declared.tools)).getLast?.map Interlocutor.tools).getD []
  hooks : it.hooks = ((entries.filter (·.declared.hooks)).getLast?.map Interlocutor.hooks).getD none
  model : (it.model, it.modelSpan) =
    ((entries.filter (·.declared.model)).getLast?.map fun e => (e.model, e.modelSpan)).getD ([], ⟨0, 0⟩)
  hasPrompt : it.hasPrompt = true ↔ ∃ e ∈ entries, e.hasPrompt = true
  prompt : ∀ e, (entries.filter Interlocutor.hasPrompt).getLast? = some e →
    it.prompt = e.prompt ∧ it.promptSource = e.promptSource
  last : ∃ e, entries.getLast? = some e ∧ it.source = e.source ∧ it.nameSpan = e.nameSpan ∧
    it.declared = e.declared

/-- The prompt with its source, if there is one. -/
def prompt? (it : Interlocutor) : Option (Bytes × Source) :=
  if it.hasPrompt then some (it.prompt, it.promptSource) else none

theorem prompt?_over {next : Interlocutor} (coherent : next.Coherent) (earlier : Interlocutor) :
    (next.over earlier).prompt? = if next.hasPrompt then next.prompt? else earlier.prompt? := by
  cases own : next.hasPrompt with
  | true => simp [prompt?, Interlocutor.over, own, coherent.prompt own]
  | false => cases below : earlier.hasPrompt <;> simp [prompt?, Interlocutor.over, own, below]

theorem prompt?_of_hasPrompt (has : it.hasPrompt = true) : it.prompt? = some (it.prompt, it.promptSource) :=
  if_pos has

theorem exists_last (top : stacked Interlocutor.over entries = some it) :
    ∃ e, entries.getLast? = some e ∧ it.source = e.source ∧ it.nameSpan = e.nameSpan ∧
      it.declared = e.declared := by
  cases entries using List.reverseRecOn with
  | nil => simp [stacked] at top
  | append_singleton entries next =>
      rw [stacked_concat, Option.some.injEq] at top
      refine ⟨next, List.getLast?_concat, ?_⟩
      subst top
      split <;> exact ⟨rfl, rfl, rfl⟩

theorem prompt_of_stacked (coherent : ∀ e ∈ entries, e.Coherent) (top : stacked Interlocutor.over entries = some it) :
    it.prompt? = (entries.filter hasPrompt).getLast?.bind prompt? := by
  have prompted : it.prompt? = ((entries.filter hasPrompt).getLast?.map prompt?).getD none := by
    refine stacked_field prompt? (fun next member => prompt?_over (coherent next member)) ?_ top
    intro e _ none
    simp [prompt?, none]
  rw [prompted]
  cases (entries.filter hasPrompt).getLast? <;> rfl

theorem lastWins_stacked (coherent : ∀ e ∈ entries, e.Coherent) (top : stacked Interlocutor.over entries = some it) :
    LastWins entries it := by
  refine ⟨?_, ?_, ?_, ?_, hasPrompt_stacked top, ?_, exists_last top⟩
  · exact stacked_field Interlocutor.provider (fun _ _ _ => rfl) (fun e member => (coherent e member).provider) top
  · exact stacked_field Interlocutor.tools (fun _ _ _ => rfl) (fun e member => (coherent e member).tools) top
  · exact stacked_field Interlocutor.hooks (fun _ _ _ => rfl) (fun e member => (coherent e member).hooks) top
  · refine stacked_field (fun e => (e.model, e.modelSpan)) (fun next _ _ => ?_) (fun e member unset => ?_) top
    · simp only [Interlocutor.over]
      split <;> rfl
    · obtain ⟨name, span⟩ := (coherent e member).model unset
      rw [name, span]
  · intro e found
    obtain ⟨member, has⟩ := List.mem_filter.mp (List.mem_of_getLast? found)
    have own : it.hasPrompt = true := (hasPrompt_stacked top).mpr ⟨e, member, has⟩
    have prompted := prompt_of_stacked coherent top
    rw [found, Option.bind_some, prompt?_of_hasPrompt has, prompt?_of_hasPrompt own, Option.some.injEq,
      Prod.mk.injEq] at prompted
    exact prompted

end Interlocutor

namespace Spec

/-- Merging is by last writer: there is one interlocutor for each name that is not empty, in the order of first
declaration, and each field of it comes from the last entry of that name that sets the field. Expansions and
kits are as they were declared last. Layers that are missing or could not be read do not count. -/
theorem merge_last_writer_wins (layers : List (Option Layer))
    (read : ∀ l, some l ∈ layers → ∃ source text base, Layer.Decoded source text base l) :
    let spec := merge layers
    OncePerKey Interlocutor.name ((declared Layer.interlocutors layers).filter fun e => e.name ≠ [])
      spec.interlocutors ∧
    (∀ it ∈ spec.interlocutors, Interlocutor.LastWins
      ((declared Layer.interlocutors layers).filter fun e => e.name = it.name) it) ∧
    LastOfEach Macro.key (declared Layer.macros layers) spec.macros ∧
    LastOfEach Kit.name (declared Layer.kits layers) spec.kits := by
  intro spec
  have coherent : ∀ e ∈ declared Layer.interlocutors layers, e.Coherent := by
    intro e member
    rw [← flatMap_sound, List.mem_flatMap] at member
    obtain ⟨l, inside, member⟩ := member
    obtain ⟨source, text, base, decoded⟩ := read l (mem_sound.mp inside).1
    exact decoded.coherent e member
  have interlocutors : spec.interlocutors = combined Interlocutor.name Interlocutor.over
      ((declared Layer.interlocutors layers).filter fun it => it.name ≠ []) := by
    have nonEmpty : (fun it : Interlocutor => !it.name.isEmpty) = fun it => decide (it.name ≠ []) := by
      funext it
      cases it.name <;> rfl
    rw [← flatMap_sound, ← nonEmpty]
    rfl
  refine ⟨?_, ?_, ?_, ?_⟩
  · rw [interlocutors]
    exact oncePerKey_combined Interlocutor.name_over _
  · intro it member
    rw [interlocutors] at member
    have top := stacked_of_mem_combined Interlocutor.name_over member
    have named : it.name ≠ [] := by
      have listed := List.mem_map_of_mem (f := Interlocutor.name) member
      rw [keys_combined Interlocutor.name_over, List.mem_eraseDups] at listed
      obtain ⟨e, inside, same⟩ := List.mem_map.mp listed
      exact same ▸ of_decide_eq_true (List.mem_filter.mp inside).2
    have all : ∀ e : Interlocutor, (decide (e.name = it.name) && decide (e.name ≠ [])) = decide (e.name = it.name) := by
      intro e
      by_cases same : e.name = it.name <;> simp [same, named]
    rw [List.filter_filter, List.filter_congr fun e _ => all e] at top
    exact Interlocutor.lastWins_stacked (fun e inside => coherent e (List.mem_of_mem_filter inside)) top
  · rw [← flatMap_sound]
    exact lastOfEach_combined _ _
  · rw [← flatMap_sound]
    exact lastOfEach_combined _ _

/-- A prompt that is declared blank is inherited, past a layer that is missing and one that is broken. -/
theorem merge_last_writer_wins_blank_prompt :
    let layers := [some "interlocutor: \x7bname: Bram, prompt: base, provider: p\x7d", none,
      some "interlocutor: [name: Bram, provider: q", some "interlocutor: \x7bname: Bram, model: m, prompt: ''\x7d"].map
        fun text => text.map fun text => Layer.ofText ⟨.system, []⟩ (utf8 text) 0
    (merge layers).interlocutors.map (fun it => (it.name, it.prompt, it.provider, it.model)) =
      [(utf8 "Bram", utf8 "base", utf8 "p", utf8 "m")] ∧
    ∀ it ∈ (merge layers).interlocutors, Interlocutor.LastWins
      ((declared Layer.interlocutors layers).filter fun e => e.name = it.name) it := by
  intro layers
  have read : ∀ l, some l ∈ layers → ∃ source text base, Layer.Decoded source text base l := by
    intro l inside
    obtain ⟨source, -, given⟩ := List.mem_map.mp inside
    obtain ⟨text, rfl, rfl⟩ := Option.map_eq_some_iff.mp given
    exact ⟨_, _, _, Layer.decoded_ofText _ _ _⟩
  exact ⟨by decide +kernel, (merge_last_writer_wins layers read).2.1⟩

end Spec

end Colloquy
