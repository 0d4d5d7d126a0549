import Colloquy.Config.Resolution
import Colloquy.Proofs.Config.Discovery
import Colloquy.Proofs.Config.Layer

/-! # What a chain loads

A chain reads at most two files, and what it keeps of a file depends on the file alone: a layer has the text at its path,
and is the user's exactly if its path is the one of the user's configuration. So chains that load the same file have the
same layer of it. Everything that a layer declares names the layer's file as its source.
-/

namespace Colloquy

namespace Layer

variable {g : Ground}

/-! ## Sources -/

theorem Ground.source_setField (it : Interlocutor) (e : Yaml.Node × Yaml.Node) :
    (g.setField it e).source = it.source := by
  unfold setField
  dsimp only
  split_ifs <;> rfl

theorem Ground.source_interlocutor (n : Yaml.Node) (entries : List (Yaml.Node × Yaml.Node)) :
    (g.interlocutor n entries).source = g.source := by
  unfold interlocutor
  apply List.foldlRecOn (motive := fun it : Interlocutor => it.source = g.source)
  · rfl
  · intro it same e _
    exact (source_setField it e).trans same

theorem Ground.source_expansion? {n : Yaml.Node} {m : Macro} (found : g.expansion? n = some m) :
    m.source = g.source := by
  unfold expansion? at found
  split at found
  · simp only [Option.ite_none_left_eq_some] at found
    obtain ⟨-, same⟩ := found
    rw [← Option.some.inj same]
    apply List.foldlRecOn (motive := fun m : Macro => m.source = g.source)
    · rfl
    · intro m same e _
      split_ifs
      · exact same
      · exact same
      · exact same
  · cases found

theorem Read.sources {l : Layer} (read : Read g l) :
    (∀ it ∈ l.interlocutors, it.source = g.source) ∧ ∀ m ∈ l.macros, m.source = g.source := by
  constructor
  · intro it member
    obtain ⟨n, entries, rfl⟩ := read.interlocutors it member
    exact Ground.source_interlocutor n entries
  · intro m member
    obtain ⟨n, found⟩ := read.macros m member
    exact Ground.source_expansion? found

end Layer

/-! ## Files -/

namespace FileSet

variable {host : Host} {s : FileSet}

/-- Every file of the set has an absolute and clean path and the text that is there. -/
def Reads (s : FileSet) (host : Host) : Prop :=
  ∀ f ∈ s.files, Path.IsCanonical f.path ∧ host.read f.path = .ok f.text

theorem normalize_of_isCanonical (host : Host) {p : Bytes} (canonical : Path.IsCanonical p) : host.normalize p = p := by
  obtain ⟨t, rfl⟩ := Path.exists_slash canonical.absolute
  exact canonical.abs_eq host.cwd

theorem isCanonical_normalize (rooted : Path.isAbs host.cwd = true) {p : Bytes} (some : p ≠ []) :
    Path.IsCanonical (host.normalize p) := by
  rw [Host.normalize, if_neg (by simpa using some)]
  exact Path.isCanonical_abs rooted p

/-- A file that is loaded is the one at the path, and it is in the set from then on. -/
theorem load_spec (rooted : Path.isAbs host.cwd = true) (reads : s.Reads host) {path : Bytes} (some : path ≠ [])
    {f : SourceFile} {after : FileSet} (loaded : s.load host path = .ok (f, after)) :
    f.path = host.normalize path ∧ host.read f.path = .ok f.text ∧ after.Reads host ∧ f ∈ after.files ∧
      ∀ g ∈ s.files, ∃ h ∈ after.files, h.path = g.path := by
  have canonical := isCanonical_normalize rooted some
  unfold load at loaded
  split at loaded
  · rename_i g found
    cases loaded
    have member := List.mem_of_find?_eq_some found
    have same : f.path = host.normalize path := by simpa using List.find?_some found
    exact ⟨same, (reads f member).2, reads, member, fun g member => ⟨g, member, rfl⟩⟩
  · split at loaded
    · rename_i text read
      cases loaded
      have own : host.normalize (host.normalize path) = host.normalize path := normalize_of_isCanonical host canonical
      rw [own]
      refine ⟨rfl, read, ?_, by simp, ?_⟩
      · intro g member
        cases List.mem_append.mp member with
        | inl before => exact reads g (List.mem_of_mem_filter before)
        | inr last =>
            obtain rfl := List.mem_singleton.mp last
            exact ⟨canonical, read⟩
      · intro g member
        by_cases same : g.path = host.normalize path
        · exact ⟨⟨host.normalize path, text⟩, by simp, same.symm⟩
        · refine ⟨g, ?_, rfl⟩
          apply List.mem_append_left
          exact List.mem_filter.mpr ⟨member, by simpa using same⟩
    · cases loaded

end FileSet

/-! ## Chains -/

namespace Resolver

/-- The source that a file is when a chain loads it. -/
def sourceAt (r : Resolver) (host : Host) (path : Bytes) : Source :=
  ⟨if path = host.normalize r.systemPath then .system else .workspace, path⟩

/-- The text at a path; empty if it cannot be read. -/
def textAt (host : Host) (path : Bytes) : Bytes :=
  match host.read path with
  | .ok text => text
  | .error _ => []

/-- The layer of a file when a chain loads it. -/
def layerAt (r : Resolver) (host : Host) (path : Bytes) : Layer :=
  Layer.ofText (r.sourceAt host path) (textAt host path) 0

/-- All that was loaded are files, each at an absolute and clean path and with the layer that it always has. -/
structure Loads (r : Resolver) (host : Host) (res : Resolution) : Prop where
  layers : res.layers = res.paths.map (r.layerAt host)
  reads : res.files.Reads host
  kept : ∀ p ∈ res.paths, Path.IsCanonical p ∧ ∃ f ∈ res.files.files, f.path = p

variable {r : Resolver} {host : Host} {res : Resolution}

theorem loads_empty (r : Resolver) (host : Host) : r.Loads host Resolution.empty :=
  ⟨rfl, fun _ member => (List.not_mem_nil member).elim, fun _ member => (List.not_mem_nil member).elim⟩

theorem Loads.load (rooted : Path.isAbs host.cwd = true) (loads : r.Loads host res) {source : Source}
    (some : source.path ≠ []) (kind : source.kind = (r.sourceAt host (host.normalize source.path)).kind) :
    r.Loads host (res.load host source) := by
  unfold Resolution.load
  split
  · rename_i f after loaded
    obtain ⟨path, read, reads, member, kept⟩ := FileSet.load_spec rooted loads.reads some loaded
    have own : Layer.ofText { source with path := f.path } f.text 0 = r.layerAt host f.path := by
      rw [layerAt, textAt, read, sourceAt]
      rw [sourceAt, ← path] at kind
      rw [kind]
    refine ⟨?_, reads, ?_⟩
    · rw [own, Resolution.add, List.map_append, List.map_singleton, ← loads.layers]
    · intro p listed
      cases List.mem_append.mp listed with
      | inl before =>
          obtain ⟨canonical, g, among, same⟩ := loads.kept p before
          obtain ⟨h, still, follows⟩ := kept g among
          exact ⟨canonical, h, still, follows.trans same⟩
      | inr last =>
          obtain rfl := List.mem_singleton.mp last
          exact ⟨(reads f member).1, f, member, rfl⟩
  · split
    · exact loads
    · exact ⟨loads.layers, loads.reads, loads.kept⟩

theorem loads_chain (rooted : Path.isAbs host.cwd = true) (r : Resolver) (dir : Bytes) :
    r.Loads host (r.chain host dir) := by
  have system : r.Loads host (if r.systemPath.isEmpty then Resolution.empty
      else Resolution.empty.load host ⟨.system, r.systemPath⟩) := by
    split
    · exact loads_empty r host
    · rename_i given
      exact (loads_empty r host).load rooted (by simpa using given) (by simp [sourceAt])
  unfold chain
  dsimp only
  split
  · exact system
  · split
    · rename_i path found
      split
      · exact system
      · rename_i other
        have canonical : Path.IsCanonical path := by
          cases stopped : r.stopped with
          | true => simp [Discovery.workspaceConfig, stopped] at found
          | false => exact Discovery.isCanonical_of_found rooted found
        have some := canonical.ne_nil
        have own := FileSet.normalize_of_isCanonical host canonical
        apply system.load rooted some
        rw [own, sourceAt, if_neg]
        intro same
        apply other
        have given : r.systemPath ≠ [] := by
          intro none
          rw [none] at same
          exact some same
        rw [Host.normalize, if_neg (by simpa using some)] at own
        rw [Host.normalize, if_neg (by simpa using given)] at same
        simp [samePath, some, given, own, ← same]
    · exact system

end Resolver

end Colloquy
