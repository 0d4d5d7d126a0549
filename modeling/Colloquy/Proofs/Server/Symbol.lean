import Colloquy.Proofs.Config.Resolution
import Colloquy.Proofs.Server.Address
import Colloquy.Server.Symbol

/-! # Workspace symbols

The symbols of a workspace are those of the files that its chains load, and what a file has to say depends on the file
alone. So it does not matter how often or from where a file is loaded: of symbols that are of one file, name and kind the
first is kept. Whether a symbol answers a query is a matter of its name, and so asking leaves out of what is kept, and
nothing more.
-/

namespace Colloquy.Symbols

/-! ## Repetitions -/

/-- What symbols must not share: file, name and kind. -/
def key (s : Bytes × Wire.Symbol) : Bytes × Bytes × Nat := (s.1, s.2.name, s.2.kind)

/-- Keep a symbol unless one with its key is kept already. -/
def keep (kept : List (Bytes × Wire.Symbol)) (s : Bytes × Wire.Symbol) : List (Bytes × Wire.Symbol) :=
  if key s ∈ kept.map key then kept else kept ++ [s]

/-- The symbols that are kept, each with its file. -/
def firsts (found : List (Bytes × Wire.Symbol)) : List (Bytes × Wire.Symbol) := found.foldl keep []

variable {found kept : List (Bytes × Wire.Symbol)}

theorem distinct_eq (found : List (Bytes × Wire.Symbol)) : distinct found = (firsts found).map (·.2) := by
  rw [distinct, firsts]
  congr 2
  funext kept s
  rw [keep]
  congr 1
  simp only [List.any_eq_true, List.mem_map, key, Prod.mk.injEq, Bool.and_eq_true, beq_iff_eq, and_assoc]

theorem mem_key_keep {s : Bytes × Wire.Symbol} {k : Bytes × Bytes × Nat} :
    k ∈ (keep kept s).map key ↔ k ∈ kept.map key ∨ k = key s := by
  unfold keep
  split
  · rename_i known
    constructor
    · exact .inl
    · rintro (old | rfl)
      · exact old
      · exact known
  · simp

theorem nodup_keep (once : (kept.map key).Nodup) (s : Bytes × Wire.Symbol) : ((keep kept s).map key).Nodup := by
  unfold keep
  split
  · exact once
  · rename_i new
    rw [List.map_append, List.map_singleton]
    exact once.append (List.nodup_singleton _) (List.disjoint_singleton.mpr new)

theorem filter_keep {p : Bytes × Wire.Symbol → Bool} (same : ∀ s t, key s = key t → p s = p t)
    (kept : List (Bytes × Wire.Symbol)) (s : Bytes × Wire.Symbol) :
    (keep kept s).filter p = if p s then keep (kept.filter p) s else kept.filter p := by
  have known : p s = true → (key s ∈ (kept.filter p).map key ↔ key s ∈ kept.map key) := by
    intro held
    constructor
    · intro member
      exact (List.filter_sublist.map key).subset member
    · intro member
      obtain ⟨t, old, equal⟩ := List.mem_map.mp member
      exact List.mem_map.mpr ⟨t, List.mem_filter.mpr ⟨old, (same t s equal).trans held⟩, equal⟩
  cases held : p s with
  | true =>
      simp only [keep, known held, if_true]
      split
      · rfl
      · rw [List.filter_append, List.filter_singleton, held, cond_true]
  | false =>
      rw [if_neg Bool.false_ne_true, keep]
      split
      · rfl
      · rw [List.filter_append, List.filter_singleton, held, cond_false, List.append_nil]

theorem mem_key_foldl {k : Bytes × Bytes × Nat} :
    k ∈ (found.foldl keep kept).map key ↔ k ∈ kept.map key ∨ k ∈ found.map key := by
  induction found generalizing kept with
  | nil => simp
  | cons s rest ih =>
      rw [List.foldl_cons, ih, mem_key_keep, List.map_cons, List.mem_cons, or_assoc]

theorem mem_key_firsts {k : Bytes × Bytes × Nat} : k ∈ (firsts found).map key ↔ k ∈ found.map key := by
  rw [firsts, mem_key_foldl]
  simp

theorem nodup_firsts (found : List (Bytes × Wire.Symbol)) : ((firsts found).map key).Nodup := by
  apply List.foldlRecOn (motive := fun kept : List (Bytes × Wire.Symbol) => (kept.map key).Nodup)
  · exact List.nodup_nil
  · intro kept once s _
    exact nodup_keep once s

theorem mem_of_mem_firsts {s : Bytes × Wire.Symbol} (member : s ∈ firsts found) : s ∈ found := by
  revert member
  apply List.foldlRecOn (motive := fun kept : List (Bytes × Wire.Symbol) => s ∈ kept → s ∈ found)
  · exact fun none => (List.not_mem_nil none).elim
  · intro kept old t among member
    unfold keep at member
    split at member
    · exact old member
    · cases List.mem_append.mp member with
      | inl before => exact old before
      | inr last => exact List.mem_singleton.mp last ▸ among

/-- The first of those with a key is chosen the same before and after leaving out whole keys. -/
theorem filter_firsts {p : Bytes × Wire.Symbol → Bool} (same : ∀ s t, key s = key t → p s = p t)
    (found : List (Bytes × Wire.Symbol)) : (firsts found).filter p = firsts (found.filter p) := by
  rw [firsts, firsts, List.foldl_filter]
  refine (List.foldl_hom (List.filter p) fun kept s => ?_).symm
  exact (filter_keep same kept s).symm

/-- Symbols whose keys are all there already are not kept. -/
theorem firsts_repeated {extra : List (Bytes × Wire.Symbol)} (known : ∀ s ∈ extra, key s ∈ found.map key)
    (rest : List (Bytes × Wire.Symbol)) : firsts (found ++ extra ++ rest) = firsts (found ++ rest) := by
  have absorbed : extra.foldl keep (firsts found) = firsts found := by
    induction extra with
    | nil => rfl
    | cons s others ih =>
        obtain ⟨first, behind⟩ := List.forall_mem_cons.mp known
        rw [List.foldl_cons, keep, if_pos (mem_key_firsts.mpr first)]
        exact ih behind
  rw [firsts, List.foldl_append, List.foldl_append, ← firsts, absorbed, firsts, firsts, List.foldl_append]

/-! ## Queries -/

/-- Whether a query occurs in a name, whatever the case. -/
def Matches (query name : Bytes) : Prop := Bytes.lower (Bytes.trim query) <:+: Bytes.lower name

theorem matches_iff {query name : Bytes} :
    Bytes.contains (Bytes.lower name) (Bytes.lower (Bytes.trim query)) = true ↔ Matches query name :=
  ⟨Bytes.infix_of_contains, Bytes.contains_of_infix⟩

instance (query name : Bytes) : Decidable (Matches query name) := decidable_of_iff _ matches_iff

theorem answers_eq (query name : Bytes) : answers query name = (decide (name ≠ []) && decide (Matches query name)) := by
  have contained : Bytes.contains (Bytes.lower name) (Bytes.lower (Bytes.trim query)) =
      decide (Matches query name) := by
    rw [Bool.eq_iff_iff, decide_eq_true_iff, matches_iff]
  rw [answers, contained]
  cases name <;> rfl

theorem matches_nil (name : Bytes) : Matches [] name := List.nil_infix

/-! ## Symbols of a file -/

variable {host : Host} {r : Resolver} {res : Resolution} {query : Bytes}

/-- The symbol of a declaration in a file. -/
def symbolAt (r : Resolver) (host : Host) (path : Bytes) (e : Entry) : Wire.Symbol :=
  ⟨e.name, e.kind, ⟨Uri.ofPath host.cwd path, SourceFile.range ⟨path, Resolver.textAt host path⟩ e.declaration.span⟩,
    (r.sourceAt host path).kind.label⟩

/-- The symbols of a file, with its path. -/
def ofFile (r : Resolver) (host : Host) (query path : Bytes) : List (Bytes × Wire.Symbol) :=
  ((ofLayer (r.layerAt host path)).filter fun e => answers query e.name).map fun e => (path, symbolAt r host path e)

theorem source_of_mem {path : Bytes} {e : Entry} (member : e ∈ ofLayer (r.layerAt host path)) :
    e.declaration.source = r.sourceAt host path := by
  obtain ⟨interlocutors, macros⟩ := (Layer.decoded_ofText _ _ _).read.sources
  cases List.mem_append.mp member with
  | inl named =>
      obtain ⟨it, among, rfl⟩ := List.mem_map.mp named
      exact interlocutors it among
  | inr named =>
      obtain ⟨m, among, rfl⟩ := List.mem_map.mp named
      exact macros m among

theorem fileLocation?_of_loads (loads : r.Loads host res) {d : Declaration} (listed : d.source.path ∈ res.paths) :
    DocumentView.fileLocation? host res.files d = some ⟨Uri.ofPath host.cwd d.source.path,
      SourceFile.range ⟨d.source.path, Resolver.textAt host d.source.path⟩ d.span⟩ := by
  obtain ⟨canonical, f, among, path⟩ := loads.kept _ listed
  have own := FileSet.normalize_of_isCanonical host canonical
  have some := canonical.ne_nil
  rw [DocumentView.fileLocation?, if_neg (by simpa using some), FileSet.get?, own]
  cases kept : res.files.files.find? fun f => f.path == d.source.path with
  | none => simpa [path] using List.find?_eq_none.mp kept f among
  | some g =>
      have same : g.path = d.source.path := by simpa using List.find?_some kept
      have read := (loads.reads g (List.mem_of_find?_eq_some kept)).2
      rw [Option.map_some, ← same, Resolver.textAt, read]

theorem ofResolution_eq (loads : r.Loads host res) (query : Bytes) :
    ofResolution host query res = res.paths.flatMap (ofFile r host query) := by
  rw [ofResolution, loads.layers, List.flatMap_map, List.filter_flatMap, List.filterMap_flatMap]
  apply List.flatMap_congr
  intro path listed
  rw [ofFile, ← List.filterMap_eq_map]
  apply List.filterMap_congr
  intro e member
  have source := source_of_mem (List.mem_of_mem_filter member)
  have own : e.declaration.source.path = path := by rw [source, Resolver.sourceAt]
  rw [fileLocation?_of_loads loads (own ▸ listed), own, source]
  rfl

/-- The symbols that are kept from the files of all chains, each with its file. -/
def listed (host : Host) (r : Resolver) (roots : List Bytes) (query : Bytes) : List (Bytes × Wire.Symbol) :=
  firsts ((([] :: roots).flatMap fun dir => (r.chain host dir).paths).flatMap (ofFile r host query))

theorem find_eq (rooted : Path.isAbs host.cwd = true) (r : Resolver) (roots : List Bytes) (query : Bytes) :
    find host r roots query = (listed host r roots query).map (·.2) := by
  rw [find, distinct_eq, listed, List.flatMap_map, List.flatMap_assoc]
  congr 2
  apply List.flatMap_congr
  intro dir _
  exact ofResolution_eq (Resolver.loads_chain rooted r dir) query

theorem ofFile_query (r : Resolver) (host : Host) (query path : Bytes) :
    ofFile r host query path = (ofFile r host [] path).filter fun s => decide (Matches query s.2.name) := by
  rw [ofFile, ofFile, List.filter_map, List.filter_filter]
  congr 2
  funext e
  simp only [answers_eq, decide_eq_true (matches_nil e.name), Bool.and_true, Function.comp_apply, symbolAt]
  exact Bool.and_comm _ _

theorem listed_query (host : Host) (r : Resolver) (roots : List Bytes) (query : Bytes) :
    listed host r roots query = (listed host r roots []).filter fun s => decide (Matches query s.2.name) := by
  rw [listed, listed, filter_firsts, List.filter_flatMap]
  · congr 2
    funext path
    exact ofFile_query r host query path
  · intro s t same
    rw [(Prod.mk.inj (Prod.mk.inj same).2).1]

/-! ## Results -/

variable {roots : List Bytes}

theorem mem_ofFile {path : Bytes} {s : Bytes × Wire.Symbol} :
    s ∈ ofFile r host query path ↔
      ∃ e ∈ ofLayer (r.layerAt host path), e.name ≠ [] ∧ Matches query e.name ∧ s = (path, symbolAt r host path e) := by
  simp only [ofFile, List.mem_map, List.mem_filter, answers_eq, Bool.and_eq_true, decide_eq_true_iff, and_assoc,
    eq_comm (b := s)]

theorem uri_of_mem_listed (rooted : Path.isAbs host.cwd = true) {s : Bytes × Wire.Symbol}
    (member : s ∈ listed host r roots query) :
    Path.IsCanonical s.1 ∧ s.2.location.uri = Uri.ofPath host.cwd s.1 := by
  obtain ⟨path, loaded, among⟩ := List.mem_flatMap.mp (mem_of_mem_firsts member)
  obtain ⟨dir, -, loaded⟩ := List.mem_flatMap.mp loaded
  obtain ⟨e, -, -, -, rfl⟩ := mem_ofFile.mp among
  exact ⟨((Resolver.loads_chain rooted r dir).kept path loaded).1, rfl⟩

/-- Two symbols that are found differ in file, name or kind. -/
theorem pairwise_find (rooted : Path.isAbs host.cwd = true) (r : Resolver) (roots : List Bytes) (query : Bytes) :
    (find host r roots query).Pairwise fun s t =>
      ¬ (s.location.uri = t.location.uri ∧ s.name = t.name ∧ s.kind = t.kind) := by
  rw [find_eq rooted, List.pairwise_map]
  have once : (listed host r roots query).Pairwise fun s t => key s ≠ key t := List.pairwise_map.mp (nodup_firsts _)
  apply once.imp_of_mem
  rintro s t first second different ⟨uri, name, kind⟩
  obtain ⟨canonical, own⟩ := uri_of_mem_listed rooted first
  obtain ⟨canonical', own'⟩ := uri_of_mem_listed rooted second
  rw [own, own'] at uri
  have path := (Uri.ofPath_inj canonical canonical').mp uri
  exact different (by rw [key, key, path, name, kind])

/-- A symbol is found exactly if some chain has a layer that declares it. -/
theorem exists_mem_find (rooted : Path.isAbs host.cwd = true) {uri name : Bytes} {kind : Nat} :
    (∃ s ∈ find host r roots query, s.location.uri = uri ∧ s.name = name ∧ s.kind = kind) ↔
      name ≠ [] ∧ Matches query name ∧ ∃ dir ∈ [] :: roots, ∃ layer ∈ (r.chain host dir).layers, ∃ e ∈ ofLayer layer,
        Uri.ofPath host.cwd e.declaration.source.path = uri ∧ e.name = name ∧ e.kind = kind := by
  rw [find_eq rooted]
  constructor
  · rintro ⟨s, found, rfl, rfl, rfl⟩
    obtain ⟨⟨path, s⟩, member, rfl⟩ := List.mem_map.mp found
    obtain ⟨path, loaded, among⟩ := List.mem_flatMap.mp (mem_of_mem_firsts member)
    obtain ⟨dir, root, loaded⟩ := List.mem_flatMap.mp loaded
    obtain ⟨e, declared, named, asked, same⟩ := mem_ofFile.mp among
    cases same
    refine ⟨named, asked, dir, root, r.layerAt host path, ?_, e, declared, ?_, rfl, rfl⟩
    · rw [(Resolver.loads_chain rooted r dir).layers]
      exact List.mem_map_of_mem loaded
    · rw [source_of_mem declared]
      rfl
  · rintro ⟨named, asked, dir, root, layer, among, e, declared, rfl, rfl, rfl⟩
    rw [(Resolver.loads_chain rooted r dir).layers] at among
    obtain ⟨path, loaded, rfl⟩ := List.mem_map.mp among
    have given : (path, symbolAt r host path e) ∈
        (([] :: roots).flatMap fun dir => (r.chain host dir).paths).flatMap (ofFile r host query) := by
      refine List.mem_flatMap.mpr ⟨path, List.mem_flatMap.mpr ⟨dir, root, loaded⟩, ?_⟩
      exact mem_ofFile.mpr ⟨e, declared, named, asked, rfl⟩
    obtain ⟨s, member, same⟩ := List.mem_map.mp (mem_key_firsts.mpr (List.mem_map_of_mem (f := key) given))
    obtain ⟨file, name, kind⟩ : s.1 = path ∧ s.2.name = e.name ∧ s.2.kind = e.kind := by
      simpa only [key, symbolAt, Prod.mk.injEq] using same
    refine ⟨s.2, List.mem_map_of_mem member, ?_, name, kind⟩
    rw [(uri_of_mem_listed rooted member).2, file, source_of_mem declared]
    rfl

/-- A folder adds nothing if its files are loaded for the folders before it. -/
theorem find_covered (rooted : Path.isAbs host.cwd = true) {earlier : List Bytes} {dir : Bytes}
    (covered : ∀ path ∈ (r.chain host dir).paths, ∃ root ∈ [] :: earlier, path ∈ (r.chain host root).paths)
    (later : List Bytes) (query : Bytes) :
    find host r (earlier ++ dir :: later) query = find host r (earlier ++ later) query := by
  rw [find_eq rooted, find_eq rooted, listed, listed]
  -- the chain of no folder stands in front, so what the user declares is known from the start
  have front : [] :: (earlier ++ dir :: later) = ([] :: earlier) ++ [dir] ++ later := by simp
  have without : [] :: (earlier ++ later) = ([] :: earlier) ++ later := rfl
  simp only [front, without, List.flatMap_append]
  congr 1
  apply firsts_repeated
  intro s member
  obtain ⟨path, loaded, among⟩ := List.mem_flatMap.mp member
  rw [List.flatMap_singleton] at loaded
  obtain ⟨root, before, known⟩ := covered path loaded
  apply List.mem_map_of_mem
  exact List.mem_flatMap.mpr ⟨path, List.mem_flatMap.mpr ⟨root, before, known⟩, among⟩

/-- No two symbols are of one file, name and kind, and there is one for every declaration of a named entity. A query
leaves those whose name it occurs in, in the same order, and a folder whose files are loaded already changes nothing. -/
theorem distinct_and_only_filtered (rooted : Path.isAbs host.cwd = true) (r : Resolver) (roots : List Bytes)
    (query : Bytes) :
    ((find host r roots query).Pairwise fun s t =>
      ¬ (s.location.uri = t.location.uri ∧ s.name = t.name ∧ s.kind = t.kind)) ∧
    (∀ uri name kind, (∃ s ∈ find host r roots query, s.location.uri = uri ∧ s.name = name ∧ s.kind = kind) ↔
      name ≠ [] ∧ Matches query name ∧ ∃ dir ∈ [] :: roots, ∃ layer ∈ (r.chain host dir).layers, ∃ e ∈ ofLayer layer,
        Uri.ofPath host.cwd e.declaration.source.path = uri ∧ e.name = name ∧ e.kind = kind) ∧
    find host r roots query = (find host r roots []).filter (fun s => decide (Matches query s.name)) ∧
    (∀ earlier dir later, roots = earlier ++ later →
      (∀ path ∈ (r.chain host dir).paths, ∃ root ∈ [] :: earlier, path ∈ (r.chain host root).paths) →
      find host r (earlier ++ dir :: later) query = find host r roots query) := by
  refine ⟨pairwise_find rooted r roots query, fun uri name kind => exists_mem_find rooted, ?_, ?_⟩
  · rw [find_eq rooted, find_eq rooted, listed_query, List.filter_map]
    rfl
  · rintro earlier dir later rfl covered
    exact find_covered rooted covered later query

/-- A folder inside another one has the file of that one, and its symbol is listed once. -/
theorem distinct_and_only_filtered_nested :
    let declared := utf8 "macros: [\x7bname: SUM, expansion: x\x7d]"
    let host : Host := ⟨FileTree.empty.add (utf8 "/w/lectic.yaml") (.file declared), utf8 "/", []⟩
    let r : Resolver := ⟨[], false⟩
    Path.isAbs host.cwd = true ∧
      (∀ path ∈ (r.chain host (utf8 "/w/a")).paths,
        ∃ root ∈ [[], utf8 "/w"], path ∈ (r.chain host root).paths) ∧
      find host r [utf8 "/w", utf8 "/w/a"] (utf8 " su ") = find host r [utf8 "/w"] (utf8 " su ") ∧
      (∃ s ∈ find host r [utf8 "/w"] (utf8 " su "), s.location.uri = utf8 "file:///w/lectic.yaml" ∧
        s.name = utf8 "SUM" ∧ s.kind = macroKind) := by
  intro declared host r
  have rooted : Path.isAbs host.cwd = true := by decide
  have outer : (r.chain host (utf8 "/w")).paths = [utf8 "/w/lectic.yaml"] := by decide +kernel
  have inner : (r.chain host (utf8 "/w/a")).paths = [utf8 "/w/lectic.yaml"] := by decide +kernel
  have covered : ∀ path ∈ (r.chain host (utf8 "/w/a")).paths,
      ∃ root ∈ [[], utf8 "/w"], path ∈ (r.chain host root).paths := by
    intro path loaded
    exact ⟨utf8 "/w", by simp, by rw [outer, ← inner]; exact loaded⟩
  obtain ⟨-, complete, -, unchanged⟩ := distinct_and_only_filtered rooted r [utf8 "/w"] (utf8 " su ")
  refine ⟨rooted, covered, unchanged [utf8 "/w"] (utf8 "/w/a") [] rfl covered, ?_⟩
  have layers : (r.chain host (utf8 "/w")).layers = [r.layerAt host (utf8 "/w/lectic.yaml")] := by
    rw [(Resolver.loads_chain rooted r (utf8 "/w")).layers, outer]
    rfl
  apply (complete _ _ _).mpr
  refine ⟨by decide, by decide +kernel, utf8 "/w", by simp, _, layers ▸ List.mem_singleton_self _, ?_⟩
  decide +kernel

end Colloquy.Symbols
