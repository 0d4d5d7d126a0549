import Colloquy.Config.Layer
import Colloquy.Proofs.Text.Space
import Mathlib.Data.List.Basic
import Mathlib.Tactic.SplitIfs

/-! # What a layer is read from

The text of a source may decode to any tree of nodes, with lines and columns that need not lie in the text.
`Decoded` holds every layer that a source can give. `Read` says what such a layer is made of: each of its
entries was read from a node, and its fault points at an offset. What else is known about layers follows from
that. Here it is that an interlocutor has no value in a field that its entry does not set, and no white space around
its name.
-/

namespace Colloquy

namespace Layer

/-- The layers that a source may give, whatever its text decodes to. -/
inductive Decoded (source : Source) (text : Bytes) (base : Int) : Layer → Prop where
  | empty : Decoded source text base (blank source)
  | tree (root : Option Yaml.Node) : Decoded source text base (ofRoot source text base root)
  | fault (f : Yaml.Fault) : Decoded source text base (ofFault source text base f)

theorem decoded_ofText (source : Source) (text : Bytes) (base : Int) :
    Decoded source text base (ofText source text base) := by
  unfold ofText
  split
  · exact .empty
  · split
    · exact .tree _
    · exact .fault _

/-- The entries of the layer were read from nodes that are located in `g`. -/
structure Read (g : Ground) (l : Layer) : Prop where
  interlocutors : ∀ it ∈ l.interlocutors, ∃ n entries, it = g.interlocutor n entries
  macros : ∀ m ∈ l.macros, ∃ n, g.expansion? n = some m
  kits : ∀ k ∈ l.kits, ∃ n, g.kit? n = some k
  hooks : ∀ h ∈ l.hooks, ∃ n, h = g.hooks n
  interlocutorSpan : ∀ s ∈ l.interlocutorSpan, ∃ n, s = g.nodeSpan n
  fault : ∀ f ∈ l.fault, (∃ n, f.2 = g.nodeSpan n) ∨ ∃ line, f.2 = g.lineSpan (g.lines.lineStart line)

namespace Read

variable {g : Ground} {l : Layer}

theorem blank (g : Ground) (source : Source) : Read g (blank source) := by
  constructor <;> simp [Layer.blank]

theorem interlocutor? {n : Yaml.Node} {it : Interlocutor} (found : g.interlocutor? n = some it) :
    ∃ m entries, it = g.interlocutor m entries := by
  cases n with
  | mapping place entries => exact ⟨_, _, (Option.some.inj found).symm⟩
  | _ => simp [Ground.interlocutor?] at found

theorem addEntry (read : Read g l) (e : Yaml.Node × Yaml.Node) : Read g (g.addEntry l e) := by
  obtain ⟨key, value⟩ := e
  unfold Ground.addEntry
  simp only
  split
  · refine { read with interlocutors := ?_, interlocutorSpan := ?_ }
    · intro it member
      obtain member | member := List.mem_append.mp member
      · exact read.interlocutors it member
      · exact interlocutor? (Option.mem_toList.mp member)
    · exact fun s same => ⟨key, (Option.some.inj same).symm⟩
  split
  · refine { read with interlocutors := ?_, interlocutorSpan := ?_ }
    · intro it member
      obtain member | member := List.mem_append.mp member
      · exact read.interlocutors it member
      · obtain ⟨n, _, found⟩ := List.mem_filterMap.mp member
        exact interlocutor? found
    · exact fun s same => ⟨key, (Option.some.inj same).symm⟩
  split
  · refine { read with macros := ?_ }
    intro m member
    obtain member | member := List.mem_append.mp member
    · exact read.macros m member
    · obtain ⟨n, _, found⟩ := List.mem_filterMap.mp member
      exact ⟨n, found⟩
  split
  · refine { read with kits := ?_ }
    intro k member
    obtain member | member := List.mem_append.mp member
    · exact read.kits k member
    · obtain ⟨n, _, found⟩ := List.mem_filterMap.mp member
      exact ⟨n, found⟩
  split
  · exact { read with hooks := fun h same => ⟨value, (Option.some.inj same).symm⟩ }
  · exact read

end Read

theorem Decoded.read {source : Source} {text : Bytes} {base : Int} {l : Layer}
    (decoded : Decoded source text base l) : Read ⟨source, LineIndex.ofText text, base⟩ l := by
  cases decoded with
  | empty => exact .blank _ source
  | tree root =>
      unfold ofRoot
      simp only
      split
      · exact List.foldlRecOn _ _ (.blank _ source) fun l read e _ => read.addEntry e
      · rename_i n _
        refine { Read.blank _ source with fault := ?_ }
        rintro _ ⟨⟩
        exact .inl ⟨n, rfl⟩
      · refine { Read.blank _ source with fault := ?_ }
        rintro _ ⟨⟩
        exact .inr ⟨0, rfl⟩
  | fault f =>
      refine { Read.blank _ source with fault := ?_ }
      rintro _ ⟨⟩
      exact .inr ⟨_, rfl⟩

end Layer

/-! ## Fields that are not set -/

/-- A field that the interlocutor's own entry does not set is empty. -/
structure Interlocutor.Coherent (it : Interlocutor) : Prop where
  prompt : it.hasPrompt = true → it.declared.prompt = true
  provider : it.declared.provider = false → it.provider = []
  model : it.declared.model = false → it.model = [] ∧ it.modelSpan = ⟨0, 0⟩
  tools : it.declared.tools = false → it.tools = []
  hooks : it.declared.hooks = false → it.hooks = none

namespace Layer

theorem Ground.coherent_setField {g : Ground} {it : Interlocutor} (coherent : it.Coherent)
    (e : Yaml.Node × Yaml.Node) : (g.setField it e).Coherent := by
  obtain ⟨key, value⟩ := e
  unfold setField
  simp only
  split
  · exact { coherent with }
  split
  · exact { coherent with prompt := fun _ => rfl }
  split
  · exact { coherent with provider := nofun }
  split
  · exact { coherent with model := nofun }
  split
  · exact { coherent with tools := nofun }
  split
  · exact { coherent with hooks := nofun }
  · exact coherent

theorem Ground.coherent_interlocutor (g : Ground) (n : Yaml.Node) (entries : List (Yaml.Node × Yaml.Node)) :
    (g.interlocutor n entries).Coherent := by
  unfold interlocutor
  apply List.foldlRecOn
  · exact ⟨nofun, fun _ => rfl, fun _ => ⟨rfl, rfl⟩, fun _ => rfl, fun _ => rfl⟩
  · exact fun it coherent e _ => g.coherent_setField coherent e

theorem Decoded.coherent {source : Source} {text : Bytes} {base : Int} {l : Layer}
    (decoded : Decoded source text base l) : ∀ it ∈ l.interlocutors, it.Coherent := by
  intro it member
  obtain ⟨n, entries, rfl⟩ := decoded.read.interlocutors it member
  exact Ground.coherent_interlocutor _ n entries

/-! ## Names -/

theorem Ground.name_setField {g : Ground} (it : Interlocutor) (e : Yaml.Node × Yaml.Node) :
    (g.setField it e).name = if e.1.label == utf8 "name" then Bytes.trim e.2.text else it.name := by
  unfold setField
  dsimp only
  split_ifs <;> rfl

theorem Ground.name_interlocutor {g : Ground} (n : Yaml.Node) (entries : List (Yaml.Node × Yaml.Node)) :
    (g.interlocutor n entries).name =
      entries.foldl (fun name e => if e.1.label == utf8 "name" then Bytes.trim e.2.text else name) [] :=
  (List.foldl_hom Interlocutor.name fun it e => (g.name_setField it e).symm).symm

/-- A name is read without the white space around it. -/
theorem Decoded.trimmed {source : Source} {text : Bytes} {base : Int} {l : Layer}
    (decoded : Decoded source text base l) : ∀ it ∈ l.interlocutors, Bytes.trim it.name = it.name := by
  intro it member
  obtain ⟨n, entries, rfl⟩ := decoded.read.interlocutors it member
  rw [Ground.name_interlocutor]
  refine List.foldlRecOn (motive := fun name => Bytes.trim name = name) entries _ rfl fun name trimmed e _ => ?_
  split
  · exact Bytes.trim_trim _
  · exact trimmed

theorem Ground.name_kit? {g : Ground} {n : Yaml.Node} {k : Kit} (found : g.kit? n = some k) : k.name ≠ [] := by
  unfold kit? at found
  split at found
  · simp only [Option.ite_none_left_eq_some, List.isEmpty_iff] at found
    obtain ⟨named, same⟩ := found
    exact Option.some.inj same ▸ named
  · cases found

/-- A kit without a name is not read. -/
theorem Decoded.kit_named {source : Source} {text : Bytes} {base : Int} {l : Layer}
    (decoded : Decoded source text base l) : ∀ k ∈ l.kits, k.name ≠ [] := by
  intro k member
  obtain ⟨n, found⟩ := decoded.read.kits k member
  exact Ground.name_kit? found

end Layer

end Colloquy
