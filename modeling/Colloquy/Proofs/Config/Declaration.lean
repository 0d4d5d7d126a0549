import Colloquy.Config.Resolution
import Colloquy.Proofs.Config.Lookup

/-! # Where an entity is declared

A name is looked up from the top layer down, and in a layer from the front. What is in effect for a name comes from
the same layer, but from the back of it: merging lets the later entry win, within a layer too. So both lookups
find a name or both do not, and they come to one declaration unless the layer names the entity again.
-/

namespace Colloquy

/-- The declarations of a name in a layer, in order. -/
def Layer.declarations (kind : EntityKind) (name : Bytes) (l : Layer) : List Declaration :=
  match kind with
  | .interlocutor => (l.interlocutors.filter fun it => it.name == name).map fun it => ⟨it.source, it.nameSpan⟩
  | .kit => (l.kits.filter fun k => k.name == name).map fun k => ⟨k.source, k.nameSpan⟩
  | .expansion => (l.macros.filter fun m => m.key == Bytes.fold name).map fun m => ⟨m.source, m.nameSpan⟩

/-- Where the entity that is in effect for a name says it is declared. -/
def Spec.declaration? (s : Spec) (kind : EntityKind) (name : Bytes) : Option Declaration :=
  match kind with
  | .interlocutor => (s.interlocutor? name).map fun it => ⟨it.source, it.nameSpan⟩
  | .kit => (s.kit? name).map fun k => ⟨k.source, k.nameSpan⟩
  | .expansion => (s.expansion? name).map fun m => ⟨m.source, m.nameSpan⟩

/-- The layer of highest precedence that declares a name. -/
def Resolution.topmost? (r : Resolution) (kind : EntityKind) (name : Bytes) : Option Layer :=
  r.layers.reverse.find? fun l => !(l.declarations kind name).isEmpty

namespace Spec

section

variable {α β : Type} {key : α → Bytes} {combine : α → α → α}

theorem find?_combined (keeps : ∀ x y, key (combine x y) = key x) (xs : List α) (k : Bytes) :
    (combined key combine xs).find? (fun x => key x == k) = stacked combine (xs.filter fun x => key x == k) := by
  cases found : (combined key combine xs).find? (fun x => key x == k) with
  | none =>
      have absent := (find?_combined_eq_none keeps).mp found
      rw [eq_comm, stacked_eq_none_iff, List.filter_eq_nil_iff]
      exact fun x member => by simpa using absent x member
  | some z =>
      obtain rfl : key z = k := by simpa using List.find?_some found
      rw [← stacked_of_mem_combined keeps (List.mem_of_find?_eq_some found)]
      exact congrArg _ (List.filter_congr fun x _ => by simp [beq_eq_decide])

/-- What no entry hands down is as the last entry has it. -/
theorem map_stacked {f : α → β} (own : ∀ x y, f (combine x y) = f x) (xs : List α) :
    (stacked combine xs).map f = (xs.map f).getLast? := by
  cases xs using List.reverseRecOn with
  | nil => rfl
  | append_singleton xs x =>
      rw [stacked_concat, List.map_append, List.map_singleton, List.getLast?_concat, Option.map_some]
      split
      · rw [own]
      · rfl

theorem map_find?_combined (keeps : ∀ x y, key (combine x y) = key x) {f : α → β}
    (own : ∀ x y, f (combine x y) = f x) (xs : List α) (k : Bytes) :
    ((combined key combine xs).find? fun x => key x == k).map f =
      ((xs.filter fun x => key x == k).map f).getLast? := by
  rw [find?_combined keeps, map_stacked own]

end

variable {kind : EntityKind} {name : Bytes}

/-- The entity in effect is declared where the name is declared last. -/
theorem declaration?_merge (named : name ≠ []) (layers : List (Option Layer)) :
    (merge layers).declaration? kind name = ((sound layers).flatMap (Layer.declarations kind name)).getLast? := by
  cases kind with
  | interlocutor =>
      have all (it : Interlocutor) : (it.name == name && !it.name.isEmpty) = (it.name == name) := by
        by_cases same : it.name = name
        · simp [same, named]
        · simp [same]
      refine (map_find?_combined Interlocutor.name_over (fun _ _ => rfl) _ _).trans ?_
      rw [List.filter_filter, List.filter_congr fun it _ => all it, List.filter_flatMap, List.map_flatMap]
      rfl
  | expansion =>
      refine (map_find?_combined (fun _ _ => rfl) (fun _ _ => rfl) _ _).trans ?_
      rw [List.filter_flatMap, List.map_flatMap]
      rfl
  | kit =>
      refine (map_find?_combined (fun _ _ => rfl) (fun _ _ => rfl) _ _).trans ?_
      rw [List.filter_flatMap, List.map_flatMap]
      rfl

theorem flatMap_sound_of_silent {α : Type} {part : Layer → List α} {layers : List Layer}
    (silent : ∀ l ∈ layers, l.isSound = false → part l = []) :
    (sound (layers.map some)).flatMap part = layers.flatMap part := by
  induction layers with
  | nil => rfl
  | cons l layers ih =>
      have rest := ih fun m member => silent m (List.mem_cons_of_mem _ member)
      rw [List.map_cons, sound_cons, List.flatMap_append, List.flatMap_cons, rest]
      cases own : l.isSound with
      | true => simp [Option.filter, own]
      | false => simp [Option.filter, own, silent l List.mem_cons_self own]

end Spec

/-! ## Layers that could not be read -/

namespace Layer

theorem fault_addEntry (g : Ground) (l : Layer) (e : Yaml.Node × Yaml.Node) : (g.addEntry l e).fault = l.fault := by
  unfold Ground.addEntry
  dsimp only
  split_ifs <;> rfl

theorem Decoded.declarations_of_fault {source : Source} {text : Bytes} {base : Int} {l : Layer}
    (decoded : Decoded source text base l) (faulty : l.isSound = false) (kind : EntityKind) (name : Bytes) :
    l.declarations kind name = [] := by
  cases decoded with
  | empty => cases kind <;> rfl
  | tree root =>
      unfold ofRoot at faulty ⊢
      dsimp only at faulty ⊢
      split at faulty
      · rename_i entries
        refine absurd faulty (Bool.not_eq_false _ ▸ ?_)
        refine List.foldlRecOn (motive := fun l : Layer => l.isSound = true) entries _ rfl ?_
        intro l sound e _
        rw [isSound, fault_addEntry]
        exact sound
      · cases kind <;> rfl
      · cases kind <;> rfl
  | fault f => cases kind <;> rfl

end Layer

namespace Resolution

/-- All layers were read from some text. -/
def IsRead (r : Resolution) : Prop := ∀ l ∈ r.layers, ∃ source text base, l = Layer.ofText source text base

theorem isRead_add {r : Resolution} (read : r.IsRead) (source : Source) (text : Bytes) (base : Int) :
    (r.add (Layer.ofText source text base)).IsRead := by
  intro l member
  obtain member | rfl := List.mem_append.mp member |>.imp_right List.mem_singleton.mp
  · exact read l member
  · exact ⟨source, text, base, rfl⟩

theorem isRead_load {r : Resolution} (read : r.IsRead) (host : Host) (source : Source) :
    (r.load host source).IsRead := by
  unfold load
  split
  · exact isRead_add read _ _ _
  · split
    · exact read
    · exact read

theorem isRead_chain (r : Resolver) (host : Host) (dir : Bytes) : (r.chain host dir).IsRead := by
  have system : (if r.systemPath.isEmpty then Resolution.empty
      else Resolution.empty.load host ⟨.system, r.systemPath⟩).IsRead := by
    split
    · exact fun l member => (List.not_mem_nil member).elim
    · exact isRead_load (fun l member => (List.not_mem_nil member).elim) host _
  unfold Resolver.chain
  dsimp only
  split
  · exact system
  · split
    · split
      · exact system
      · exact isRead_load system host _
    · exact system

theorem isRead_resolve (r : Resolver) (host : Host) (dir docPath header : Bytes) (offset : Int) :
    (r.resolve host dir docPath header offset).IsRead :=
  isRead_add (isRead_chain r host dir) _ _ _

/-- A name that is in effect is what is left of it when it is trimmed, and that is something. -/
theorem IsRead.trimmed {r : Resolution} (read : r.IsRead) {name : Bytes} (listed : name ∈ r.spec.names) :
    Bytes.trim name = name ∧ name ≠ [] := by
  obtain ⟨it, member, rfl⟩ := Spec.mem_names_merge.mp listed
  obtain ⟨member, some⟩ := List.mem_filter.mp member
  obtain ⟨l, sound, member⟩ := List.mem_flatMap.mp member
  obtain ⟨source, text, base, rfl⟩ := read l (Spec.mem_map_some.mp (Spec.mem_sound.mp sound).1)
  exact ⟨(Layer.decoded_ofText source text base).trimmed it member, by simpa using some⟩

/-! ## The two lookups -/

variable {r : Resolution} {kind : EntityKind} {name : Bytes}

theorem findIn_eq (l : Layer) : findIn kind name l = (l.declarations kind name).head? := by
  cases kind <;> simp only [findIn, Layer.declarations, List.head?_map, List.head?_filter]

theorem findSome?_eq_bind {α β : Type} {f : α → List β} {g : List β → Option β} (nothing : g [] = none)
    (something : ∀ b bs, (g (b :: bs)).isSome) (xs : List α) :
    xs.findSome? (fun x => g (f x)) = (xs.find? fun x => !(f x).isEmpty).bind fun x => g (f x) := by
  induction xs with
  | nil => rfl
  | cons x xs ih =>
      cases here : f x with
      | nil => simpa [here, nothing] using ih
      | cons b bs =>
          obtain ⟨c, found⟩ := Option.isSome_iff_exists.mp (something b bs)
          simp [here, found]

theorem find?_eq : r.find? kind name = (r.topmost? kind name).bind fun l => (l.declarations kind name).head? := by
  rw [find?, show findIn kind name = fun l => (l.declarations kind name).head? from funext findIn_eq]
  exact findSome?_eq_bind rfl (fun _ _ => rfl) _

theorem declaration?_eq (read : r.IsRead) (named : name ≠ []) :
    r.spec.declaration? kind name = (r.topmost? kind name).bind fun l => (l.declarations kind name).getLast? := by
  have silent : ∀ l ∈ r.layers, l.isSound = false → l.declarations kind name = [] := by
    intro l member faulty
    obtain ⟨source, text, base, rfl⟩ := read l member
    exact (Layer.decoded_ofText source text base).declarations_of_fault faulty kind name
  rw [spec, Spec.declaration?_merge named, Spec.flatMap_sound_of_silent silent, List.getLast?_flatMap]
  exact findSome?_eq_bind rfl (fun _ _ => by simp) _

/-- Both lookups find a name or both do not. What they find is in the topmost layer that declares the name: the one
    finds its first declaration there, the entity in effect is from the last one. So they agree just when these are
    the same. -/
theorem find?_effective_unless_repeated (r : Resolver) (host : Host) (dir docPath header : Bytes) (offset : Int)
    (kind : EntityKind) {name : Bytes} (named : name ≠ []) :
    let res := r.resolve host dir docPath header offset
    (res.find? kind name).isSome = (res.spec.declaration? kind name).isSome ∧
    (∀ l, res.topmost? kind name = some l →
      res.find? kind name = (l.declarations kind name).head? ∧
      res.spec.declaration? kind name = (l.declarations kind name).getLast?) ∧
    (res.find? kind name = res.spec.declaration? kind name ↔
      ∀ l, res.topmost? kind name = some l →
        (l.declarations kind name).head? = (l.declarations kind name).getLast?) := by
  intro res
  have effective : res.spec.declaration? kind name = _ :=
    declaration?_eq (isRead_resolve r host dir docPath header offset) named
  have found : res.find? kind name = _ := find?_eq
  cases top : res.topmost? kind name with
  | none =>
      rw [top] at effective found
      simp [found, effective]
  | some l =>
      rw [top, Option.bind_some] at effective found
      rw [found, effective]
      refine ⟨?_, ?_, ?_⟩
      · cases l.declarations kind name <;> simp
      · rintro m ⟨⟩
        exact ⟨rfl, rfl⟩
      · simp

/-- A name that is declared twice further down is found where the top layer declares it. -/
theorem find?_effective_repeated_below :
    let host : Host := ⟨FileTree.empty.add (utf8 "/c") (.file (utf8 "kits:\n- name: k\n- name: k\n")), utf8 "/", []⟩
    let res := (⟨utf8 "/c", false⟩ : Resolver).resolve host [] (utf8 "/d") (utf8 "kits: [\x7bname: k\x7d]") 4
    utf8 "k" ≠ [] ∧ (res.layers.map fun l => (l.declarations .kit (utf8 "k")).length) = [2, 1] ∧
    res.find? .kit (utf8 "k") = res.spec.declaration? .kit (utf8 "k") := by
  intro host res
  have named : utf8 "k" ≠ [] := by decide
  refine ⟨named, by decide +kernel, ?_⟩
  have once : (res.topmost? .kit (utf8 "k")).map (fun l => (l.declarations .kit (utf8 "k")).length) = some 1 := by
    decide +kernel
  refine (find?_effective_unless_repeated _ host [] _ _ _ .kit named).2.2.mpr fun l top => ?_
  rw [show res.topmost? .kit (utf8 "k") = some l from top, Option.map_some, Option.some.injEq] at once
  obtain ⟨d, single⟩ := List.length_eq_one_iff.mp once
  rw [single]
  rfl

/-- Of two declarations in one layer the first is found, and the second is in effect. -/
theorem find?_not_effective :
    let header := utf8 "interlocutors:\n- name: A\n- name: A\n"
    let res := (⟨[], false⟩ : Resolver).resolve ⟨.empty, utf8 "/", []⟩ [] [] header 0
    res.find? .interlocutor (utf8 "A") = some ⟨⟨.header, []⟩, ⟨17, 24⟩⟩ ∧
    res.spec.declaration? .interlocutor (utf8 "A") = some ⟨⟨.header, []⟩, ⟨27, 34⟩⟩ := by
  decide +kernel

end Resolution

end Colloquy
