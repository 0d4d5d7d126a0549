import Colloquy.Outline.Cache
import Mathlib.Data.List.DropRight
import Mathlib.Data.List.Infix
import Mathlib.Data.List.Nodup

/-! # The cache of snapshots

A cache that holds only what an analysis gave hands out only what an analysis would give, and goes on to hold nothing
else.

A cache is asked for snapshots of documents and told to forget documents, in any order. The snapshot of a document
stays in it until the document is forgotten, is asked for in another version or with another text, or is the one
unused for longest when room is needed. `Got` says once what asking can do; `Holds` says of a snapshot which
documents were used after it.
-/

namespace Colloquy

/-- A snapshot shows a version of a document with a text. -/
def Snapshot.Shows (s : Snapshot) (uri : Bytes) (version : Int64) (text : Bytes) : Prop :=
  s.uri = uri ∧ s.version = version ∧ s.text = text

namespace Cache

/-- Every snapshot is the analysis of its own text. -/
def IsSound (c : Cache) : Prop :=
  ∀ s ∈ c.entries, s.document = Document.ofText s.text ∧ s.outline = Outline.ofDocument s.document

theorem isSound_empty (capacity : Int) : (empty capacity).IsSound := by
  intro s member
  cases member

theorem isSound_forget {c : Cache} (sound : c.IsSound) (uri : Bytes) : (c.forget uri).IsSound := by
  intro s member
  exact sound s (List.mem_filter.mp member).1

/-- Whether it is found or built, a snapshot is what an analysis gives, its serial number apart. -/
theorem exists_analyze_get {c : Cache} (sound : c.IsSound) (uri : Bytes) (version : Int64) (text : Bytes) :
    ∃ serial, (c.get uri version text).1 = Snapshot.analyze serial uri version text := by
  unfold get
  dsimp only
  split
  · rename_i s hit
    rw [Option.filter_eq_some_iff] at hit
    obtain ⟨found, sameText⟩ := hit
    have named := List.find?_some found
    rw [Bool.and_eq_true, beq_iff_eq, beq_iff_eq] at named
    obtain ⟨rfl, rfl⟩ := named
    obtain rfl := eq_of_beq sameText
    obtain ⟨document, outline⟩ := sound s (List.mem_of_find?_eq_some found)
    refine ⟨s.serial, ?_⟩
    simp only [Snapshot.analyze, ← document, ← outline]
  · exact ⟨c.built, rfl⟩

theorem isSound_get {c : Cache} (sound : c.IsSound) (uri : Bytes) (version : Int64) (text : Bytes) :
    (c.get uri version text).2.IsSound := by
  unfold get
  dsimp only
  split
  · rename_i s hit
    rw [Option.filter_eq_some_iff] at hit
    intro e member
    cases member with
    | head => exact sound s (List.mem_of_find?_eq_some hit.1)
    | tail _ member => exact sound e (List.mem_filter.mp member).1
  · intro e member
    cases List.mem_of_mem_take member with
    | head => exact ⟨rfl, rfl⟩
    | tail _ member => exact isSound_forget sound uri e member

/-! ## What the cache keeps -/

/-- What is asked of a cache. -/
inductive Request where
  /-- The snapshot of a document is wanted. -/
  | get (uri : Bytes) (version : Int64) (text : Bytes)
  /-- A document is to be forgotten. -/
  | forget (uri : Bytes)
  deriving DecidableEq

namespace Request

def uri : Request → Bytes
  | get uri _ _ => uri
  | forget uri => uri

/-- Documents by their last use, the latest first, after one more request. -/
def use (uris : List Bytes) : Request → List Bytes
  | get uri _ _ => uri :: uris.filter (· != uri)
  | forget uri => uris.filter (· != uri)

/-- The documents that were asked for and not forgotten since, the one asked for last first. -/
def recent (rs : List Request) : List Bytes := rs.foldl use []

/-- The requests since the last one about a document. -/
def since (uri : Bytes) (rs : List Request) : List Request := rs.rtakeWhile fun r => r.uri != uri

theorem since_concat_self {uri : Bytes} {r : Request} (here : r.uri = uri) (rs : List Request) :
    since uri (rs ++ [r]) = [] :=
  List.rtakeWhile_concat_neg _ _ _ (by simpa using here)

theorem since_concat {uri : Bytes} {r : Request} (other : r.uri ≠ uri) (rs : List Request) :
    since uri (rs ++ [r]) = since uri rs ++ [r] :=
  List.rtakeWhile_concat_pos _ _ _ (by simpa using other)

theorem uri_ne_of_mem_since {uri : Bytes} {rs : List Request} {r : Request} (member : r ∈ since uri rs) :
    r.uri ≠ uri := by
  simpa using List.mem_rtakeWhile_imp member

theorem recent_concat (rs : List Request) (r : Request) : recent (rs ++ [r]) = use (recent rs) r :=
  List.foldl_concat ..

/-- What was used before comes behind what is used now. -/
theorem recent_leads (before : List Bytes) (rs : List Request) : recent rs <+: rs.foldl use before := by
  induction rs using List.reverseRecOn with
  | nil => exact List.nil_prefix
  | append_singleton rs r ih =>
      obtain ⟨rest, same⟩ := ih
      rw [recent_concat, List.foldl_concat, ← same]
      cases r with
      | get uri version text =>
          simp only [use, List.filter_append]
          exact List.prefix_append _ _
      | forget uri =>
          simp only [use, List.filter_append]
          exact List.prefix_append _ _

end Request

open Request

/-- The cache after a request. -/
def next (c : Cache) : Request → Cache
  | .get uri version text => (c.get uri version text).2
  | .forget uri => c.forget uri

def after (c : Cache) (rs : List Request) : Cache := rs.foldl next c

/-- At some time a document was the one unused for longest and there was no room for it: as many others as the cache
    can hold had been asked for since it was, and not been forgotten. -/
def Evicted (capacity : Nat) (uri : Bytes) (rs : List Request) : Prop :=
  ∃ part, part <:+: rs ∧ (∀ r ∈ part, r.uri ≠ uri) ∧ capacity ≤ (recent part).length

theorem after_append (c : Cache) (before later : List Request) :
    c.after (before ++ later) = (c.after before).after later :=
  List.foldl_append

theorem after_concat (c : Cache) (rs : List Request) (r : Request) : c.after (rs ++ [r]) = (c.after rs).next r :=
  List.foldl_concat ..

/-! ## What a cache is like -/

/-- There is room, no document is there twice, and every snapshot was built before. -/
structure IsKept (c : Cache) : Prop where
  room : 0 < c.capacity
  once : (c.entries.map Snapshot.uri).Nodup
  fits : c.entries.length ≤ c.capacity
  built : ∀ s ∈ c.entries, s.serial < c.built

theorem isKept_empty (capacity : Int) : (empty capacity).IsKept where
  room := by
    unfold empty
    dsimp only
    split <;> omega
  once := List.nodup_nil
  fits := Nat.zero_le _
  built := by simp [empty]

theorem IsKept.eq_of_uri {c : Cache} (kept : c.IsKept) {s e : Snapshot} (here : s ∈ c.entries) (there : e ∈ c.entries)
    (same : s.uri = e.uri) : s = e :=
  List.inj_on_of_nodup_map kept.once here there same

theorem mem_forget {c : Cache} {uri : Bytes} {s : Snapshot} :
    s ∈ (c.forget uri).entries ↔ s ∈ c.entries ∧ s.uri ≠ uri := by
  simp [forget]

theorem IsKept.forget {c : Cache} (kept : c.IsKept) (uri : Bytes) : (c.forget uri).IsKept where
  room := kept.room
  once := kept.once.sublist (List.filter_sublist.map _)
  fits := Nat.le_trans (List.length_filter_le ..) kept.fits
  built := fun s member => kept.built s (mem_forget.mp member).1

/-! ## Asking for a snapshot -/

/-- The snapshots when one is put in front, in the place of what there was of its document. -/
def renewed (c : Cache) (s : Snapshot) : List Snapshot := (s :: (c.forget s.uri).entries).take c.capacity

/-- What asking for a snapshot can do: the one that shows what is asked for is found, or it is built. -/
inductive Got (c : Cache) (uri : Bytes) (version : Int64) (text : Bytes) : Snapshot × Cache → Prop where
  | found {s : Snapshot} : s ∈ c.entries → s.Shows uri version text →
      Got c uri version text (s, { c with entries := c.renewed s })
  | made {s : Snapshot} : (∀ e ∈ c.entries, ¬ e.Shows uri version text) → s.Shows uri version text →
      s.serial = c.built → Got c uri version text (s, { c with built := c.built + 1, entries := c.renewed s })

/-- There is room for a snapshot that was there. -/
theorem IsKept.renewed_of_mem {c : Cache} (kept : c.IsKept) {s : Snapshot} (member : s ∈ c.entries) :
    c.renewed s = s :: (c.forget s.uri).entries := by
  have fewer : (c.forget s.uri).entries.length < c.entries.length :=
    List.length_filter_lt_length_iff_exists.mpr ⟨s, member, by simp⟩
  refine List.take_of_length_le ?_
  have fits := kept.fits
  rw [List.length_cons]
  omega

theorem IsKept.got_get {c : Cache} (kept : c.IsKept) (uri : Bytes) (version : Int64) (text : Bytes) :
    Got c uri version text (c.get uri version text) := by
  unfold get
  dsimp only
  split
  · rename_i s hit
    obtain ⟨found, sameText⟩ := Option.filter_eq_some_iff.mp hit
    have named := List.find?_some found
    rw [Bool.and_eq_true, beq_iff_eq, beq_iff_eq] at named
    have member := List.mem_of_find?_eq_some found
    -- the document is there once, so that what has its address has the version too
    have others : (c.entries.filter fun e => !(e.uri == uri && e.version == version)) = (c.forget s.uri).entries := by
      refine List.filter_congr fun e there => ?_
      by_cases same : e.uri = s.uri
      · obtain rfl := kept.eq_of_uri there member same
        simp [named]
      · have other : (e.uri == s.uri) = false := beq_eq_false_iff_ne.mpr same
        simp [← named.1, other, bne]
    rw [others, ← kept.renewed_of_mem member]
    exact .found member ⟨named.1, named.2, eq_of_beq sameText⟩
  · rename_i missed
    refine .made (fun e there shown => ?_) ⟨rfl, rfl, rfl⟩ rfl
    obtain ⟨rfl, rfl, rfl⟩ := shown
    cases found : c.entries.find? fun s => s.uri == e.uri && s.version == e.version with
    | none =>
        have other := List.find?_eq_none.mp found e there
        simp at other
    | some s =>
        have named := List.find?_some found
        rw [Bool.and_eq_true, beq_iff_eq, beq_iff_eq] at named
        obtain rfl := kept.eq_of_uri (List.mem_of_find?_eq_some found) there named.1
        simp [found, Option.filter] at missed

namespace Got

variable {c : Cache} {uri : Bytes} {version : Int64} {text : Bytes} {got : Snapshot × Cache}

theorem shows (asked : Got c uri version text got) : got.1.Shows uri version text := by
  cases asked with
  | found _ shows => exact shows
  | made _ shows _ => exact shows

theorem entries (asked : Got c uri version text got) : got.2.entries = c.renewed got.1 := by
  cases asked <;> rfl

theorem capacity (asked : Got c uri version text got) : got.2.capacity = c.capacity := by
  cases asked <;> rfl

theorem built_le (asked : Got c uri version text got) : c.built ≤ got.2.built := by
  cases asked with
  | found => exact Nat.le_refl _
  | made => exact Nat.le_succ _

/-- A snapshot that was built before is handed out only if it is still there. -/
theorem mem_of_old (asked : Got c uri version text got) (old : got.1.serial < c.built) : got.1 ∈ c.entries := by
  cases asked with
  | found member => exact member
  | made _ _ serial => exact absurd old (serial ▸ Nat.lt_irrefl _)

theorem isKept (asked : Got c uri version text got) (kept : c.IsKept) : got.2.IsKept where
  room := asked.capacity ▸ kept.room
  once := by
    rw [asked.entries]
    refine List.Nodup.sublist ((List.take_sublist ..).map _) (List.nodup_cons.mpr ⟨?_, (kept.forget _).once⟩)
    intro member
    obtain ⟨e, there, same⟩ := List.mem_map.mp member
    exact (mem_forget.mp there).2 same
  fits := by
    rw [asked.entries, asked.capacity]
    exact List.length_take_le ..
  built := by
    intro s member
    rw [asked.entries] at member
    obtain rfl | member := List.mem_cons.mp (List.mem_of_mem_take member)
    · cases asked with
      | found there => exact kept.built _ there
      | made _ _ serial => exact serial ▸ Nat.lt_succ_self _
    · exact Nat.lt_of_lt_of_le (kept.built s (mem_forget.mp member).1) asked.built_le

/-- What is handed out is used last. -/
theorem exists_cons (asked : Got c uri version text got) (kept : c.IsKept) :
    ∃ older, got.2.entries = got.1 :: older := by
  obtain ⟨n, room⟩ := Nat.exists_eq_succ_of_ne_zero (Nat.ne_of_gt kept.room)
  refine ⟨(c.forget got.1.uri).entries.take n, ?_⟩
  rw [asked.entries, renewed, room, List.take_succ_cons]

end Got

/-! ## Requests -/

section

variable {c : Cache}

theorem IsKept.next (kept : c.IsKept) (r : Request) : (c.next r).IsKept := by
  cases r with
  | get uri version text => exact (kept.got_get uri version text).isKept kept
  | forget uri => exact kept.forget uri

theorem IsKept.capacity_next (kept : c.IsKept) (r : Request) : (c.next r).capacity = c.capacity := by
  cases r with
  | get uri version text => exact (kept.got_get uri version text).capacity
  | forget uri => rfl

theorem IsKept.after (kept : c.IsKept) (rs : List Request) : (c.after rs).IsKept := by
  induction rs generalizing c with
  | nil => exact kept
  | cons r rs ih => exact ih (kept.next r)

theorem IsKept.capacity_after (kept : c.IsKept) (rs : List Request) : (c.after rs).capacity = c.capacity := by
  induction rs generalizing c with
  | nil => rfl
  | cons r rs ih => exact (ih (kept.next r)).trans (kept.capacity_next r)

theorem isSound_after (sound : c.IsSound) (rs : List Request) : (c.after rs).IsSound := by
  induction rs generalizing c with
  | nil => exact sound
  | cons r rs ih =>
      refine ih ?_
      cases r with
      | get uri version text => exact isSound_get sound uri version text
      | forget uri => exact isSound_forget sound uri

/-- A snapshot that was built and is no longer there does not come back. -/
structure IsGone (c : Cache) (s : Snapshot) : Prop where
  old : s.serial < c.built
  gone : s ∉ c.entries

theorem IsGone.next {s : Snapshot} (gone : c.IsGone s) (kept : c.IsKept) (r : Request) : (c.next r).IsGone s := by
  cases r with
  | get uri version text =>
      have asked := kept.got_get uri version text
      refine ⟨Nat.lt_of_lt_of_le gone.old asked.built_le, fun member => gone.gone ?_⟩
      rw [Cache.next, asked.entries] at member
      obtain rfl | member := List.mem_cons.mp (List.mem_of_mem_take member)
      · exact asked.mem_of_old gone.old
      · exact (mem_forget.mp member).1
  | forget uri => exact ⟨gone.old, fun member => gone.gone (mem_forget.mp member).1⟩

theorem IsGone.after {s : Snapshot} (gone : c.IsGone s) (kept : c.IsKept) (rs : List Request) :
    (c.after rs).IsGone s := by
  induction rs generalizing c with
  | nil => exact gone
  | cons r rs ih => exact ih (gone.next kept r) (kept.next r)

theorem IsKept.mem_of_mem_after (kept : c.IsKept) {s : Snapshot} (old : s.serial < c.built) {rs : List Request}
    (member : s ∈ (c.after rs).entries) : s ∈ c.entries := by
  by_contra gone
  exact (IsGone.after ⟨old, gone⟩ kept rs).gone member

theorem IsKept.built_le_after (kept : c.IsKept) (rs : List Request) : c.built ≤ (c.after rs).built := by
  induction rs generalizing c with
  | nil => exact Nat.le_refl _
  | cons r rs ih =>
      refine Nat.le_trans ?_ (ih (kept.next r))
      cases r with
      | get uri version text => exact (kept.got_get uri version text).built_le
      | forget uri => exact Nat.le_refl _

end

/-! ## Who was used since -/

/-- A snapshot is there, and these are the documents used after it. -/
def Holds (c : Cache) (s : Snapshot) (newer : List Bytes) : Prop :=
  ∃ front older, c.entries = front ++ s :: older ∧ front.map Snapshot.uri = newer

namespace Holds

variable {c : Cache} {s : Snapshot} {newer : List Bytes}

theorem mem (holds : c.Holds s newer) : s ∈ c.entries := by
  obtain ⟨front, older, there, -⟩ := holds
  simp [there]

theorem length_lt (holds : c.Holds s newer) (kept : c.IsKept) : newer.length < c.capacity := by
  obtain ⟨front, older, there, rfl⟩ := holds
  have fits := kept.fits
  rw [there, List.length_append, List.length_cons] at fits
  rw [List.length_map]
  omega

/-- Forgetting another document leaves the snapshot where it is. -/
theorem forget (holds : c.Holds s newer) {uri : Bytes} (other : uri ≠ s.uri) :
    (c.forget uri).Holds s (newer.filter (· != uri)) := by
  obtain ⟨front, older, there, rfl⟩ := holds
  refine ⟨front.filter fun e => e.uri != uri, older.filter fun e => e.uri != uri, ?_, ?_⟩
  · rw [Cache.forget, there, List.filter_append, List.filter_cons_of_pos (by simpa using other.symm)]
  · rw [List.filter_map]
    rfl

/-- Another snapshot is put in front. The snapshot moves back, and goes when there is no room for it any more. -/
theorem renewed (holds : c.Holds s newer) (kept : c.IsKept) {e : Snapshot} (other : e.uri ≠ s.uri) :
    (∃ front older, c.renewed e = front ++ s :: older ∧
        front.map Snapshot.uri = e.uri :: newer.filter (· != e.uri)) ∨
      (c.capacity ≤ (e.uri :: newer.filter (· != e.uri)).length ∧ s ∉ c.renewed e) := by
  obtain ⟨front, older, there, same⟩ := holds.forget other
  have entries : c.renewed e = ((e :: front) ++ s :: older).take c.capacity := by
    rw [Cache.renewed, there, List.cons_append]
  rw [entries, List.take_append]
  by_cases room : (e :: front).length < c.capacity
  · obtain ⟨n, behind⟩ : ∃ n, c.capacity - (e :: front).length = n + 1 := ⟨_, (Nat.succ_pred (by omega)).symm⟩
    refine .inl ⟨e :: front, older.take n, ?_, by rw [List.map_cons, same]⟩
    rw [List.take_of_length_le (Nat.le_of_lt room), behind, List.take_succ_cons]
  · refine .inr ⟨by rw [← same, List.length_cons, List.length_map]; exact Nat.not_lt.mp room, fun member => ?_⟩
    rw [Nat.sub_eq_zero_of_le (Nat.not_lt.mp room), List.take_zero, List.append_nil] at member
    have once := (kept.forget e.uri).once.of_map
    rw [there] at once
    obtain rfl | early := List.mem_cons.mp (List.mem_of_mem_take member)
    · exact other rfl
    · exact List.disjoint_of_nodup_append once early List.mem_cons_self

theorem next (holds : c.Holds s newer) (kept : c.IsKept) {r : Request} (other : r.uri ≠ s.uri) :
    (c.next r).Holds s (use newer r) ∨ (c.capacity ≤ (use newer r).length ∧ s ∉ (c.next r).entries) := by
  cases r with
  | forget uri => exact .inl (holds.forget other)
  | get uri version text =>
      have asked := kept.got_get uri version text
      have named : (c.get uri version text).1.uri = uri := asked.shows.1
      have moved := holds.renewed kept (e := (c.get uri version text).1) (by rwa [named])
      rw [← asked.entries, named] at moved
      exact moved

/-- As long as a snapshot stays, the documents used after it are known. -/
theorem after (holds : c.Holds s newer) (kept : c.IsKept) {rs : List Request} (others : ∀ r ∈ rs, r.uri ≠ s.uri)
    (stays : s ∈ (c.after rs).entries) : (c.after rs).Holds s (rs.foldl use newer) := by
  induction rs generalizing c newer with
  | nil => exact holds
  | cons r rs ih =>
      have old : s.serial < (c.next r).built :=
        Nat.lt_of_lt_of_le (kept.built s holds.mem) (kept.built_le_after [r])
      have still := (kept.next r).mem_of_mem_after old stays
      obtain holds | ⟨-, gone⟩ := holds.next kept (others r List.mem_cons_self)
      · exact ih holds (kept.next r) (fun r member => others r (List.mem_cons_of_mem _ member)) stays
      · exact absurd still gone

end Holds

/-! ## The cache changes nothing -/

/-- A snapshot that shows what is asked for is handed out as long as it is there. -/
theorem IsKept.get_of_mem {c : Cache} (kept : c.IsKept) {s : Snapshot} {uri : Bytes} {version : Int64} {text : Bytes}
    (member : s ∈ c.entries) (shows : s.Shows uri version text) : (c.get uri version text).1 = s := by
  have asked := kept.got_get uri version text
  generalize c.get uri version text = got at asked ⊢
  cases asked with
  | found there shown => exact kept.eq_of_uri there member (shown.1.trans shows.1.symm)
  | made missing => exact absurd shows (missing s member)

/-- What is handed out stays if nothing else is asked about its document and it is not evicted. -/
theorem IsKept.holds_after {c : Cache} (kept : c.IsKept) {s : Snapshot} (holds : c.Holds s []) {rs : List Request}
    (alone : ∀ r ∈ rs, r.uri = s.uri → r = .get s.uri s.version s.text) (spared : ¬ Evicted c.capacity s.uri rs) :
    (c.after rs).Holds s (recent (since s.uri rs)) := by
  induction rs using List.reverseRecOn with
  | nil => exact holds
  | append_singleton rs r ih =>
      have before : (c.after rs).Holds s (recent (since s.uri rs)) := by
        refine ih (fun r member => alone r (List.mem_append_left _ member)) fun evicted => spared ?_
        obtain ⟨part, inside, others, full⟩ := evicted
        exact ⟨part, inside.trans (List.prefix_append _ _).isInfix, others, full⟩
      have keptBefore := kept.after rs
      rw [after_concat]
      by_cases here : r.uri = s.uri
      · -- the snapshot is asked for again, and used last
        rw [since_concat_self here, alone r (by simp) here]
        obtain ⟨older, first⟩ := (keptBefore.got_get s.uri s.version s.text).exists_cons keptBefore
        rw [keptBefore.get_of_mem before.mem ⟨rfl, rfl, rfl⟩] at first
        exact ⟨[], older, first, rfl⟩
      · have counted : recent (since s.uri (rs ++ [r])) = use (recent (since s.uri rs)) r := by
          rw [since_concat here, recent_concat]
        obtain stays | ⟨full, -⟩ := before.next keptBefore here
        · rwa [counted]
        · rw [← counted, kept.capacity_after] at full
          exact absurd ⟨_, (List.rtakeWhile_suffix _ _).isInfix, fun r => uri_ne_of_mem_since, full⟩ spared

/-- What stays was asked for alone. -/
theorem IsKept.request_eq {c : Cache} (kept : c.IsKept) {s : Snapshot} {r : Request}
    (stays : s ∈ (c.next r).entries) (here : r.uri = s.uri) : r = .get s.uri s.version s.text := by
  cases r with
  | forget uri => exact absurd here.symm (mem_forget.mp stays).2
  | get uri version text =>
      have asked := kept.got_get uri version text
      rw [Cache.next, asked.entries] at stays
      obtain rfl | other := List.mem_cons.mp (List.mem_of_mem_take stays)
      · obtain ⟨sameUri, sameVersion, sameText⟩ := asked.shows
        rw [sameUri, sameVersion, sameText]
      · exact absurd (here.symm.trans asked.shows.1.symm) (mem_forget.mp other).2

/-- What stays was not evicted. -/
theorem IsKept.not_evicted {c : Cache} (kept : c.IsKept) {s : Snapshot} (old : s.serial < c.built) {rs : List Request}
    (stays : s ∈ (c.after rs).entries) : ¬ Evicted c.capacity s.uri rs := by
  rintro ⟨part, ⟨before, later, rfl⟩, others, full⟩
  have keptBefore := kept.after before
  have oldBefore := Nat.lt_of_lt_of_le old (kept.built_le_after before)
  rw [after_append, after_append] at stays
  have behind := (keptBefore.after part).mem_of_mem_after
    (Nat.lt_of_lt_of_le oldBefore (keptBefore.built_le_after part)) stays
  obtain ⟨front, older, there⟩ := List.append_of_mem (keptBefore.mem_of_mem_after oldBefore behind)
  have holds : (c.after before).Holds s (front.map Snapshot.uri) := ⟨front, older, there, rfl⟩
  have room := (holds.after keptBefore others behind).length_lt (keptBefore.after part)
  rw [keptBefore.capacity_after, kept.capacity_after] at room
  exact absurd (Nat.le_trans full (recent_leads _ part).length_le) (Nat.not_le.mpr room)

/-- The snapshot that was handed out is handed out again exactly if nothing else was asked about its document since,
    and the document was not evicted. -/
theorem Got.get_after_eq_iff {c : Cache} {uri : Bytes} {version : Int64} {text : Bytes} {got : Snapshot × Cache}
    (asked : Got c uri version text got) (kept : c.IsKept) (later : List Request) :
    ((got.2.after later).get uri version text).1 = got.1 ↔
      (∀ r ∈ later, r.uri = uri → r = .get uri version text) ∧ ¬ Evicted c.capacity uri later := by
  have keptThen := asked.isKept kept
  have keptLater := keptThen.after later
  have capacity := asked.capacity
  obtain ⟨older, first⟩ := asked.exists_cons kept
  have shown := asked.shows
  obtain ⟨s, c'⟩ := got
  obtain ⟨rfl, rfl, rfl⟩ := shown
  have old : s.serial < c'.built := keptThen.built s (by simp [show c'.entries = s :: older from first])
  constructor
  · intro again
    have oldLater := Nat.lt_of_lt_of_le old (keptThen.built_le_after later)
    have stays := (keptLater.got_get s.uri s.version s.text).mem_of_old (by rwa [again])
    rw [again] at stays
    refine ⟨fun r member here => ?_, capacity ▸ keptThen.not_evicted old stays⟩
    -- it was there after each request, so also after this one
    obtain ⟨before, behind, rfl⟩ := List.append_of_mem member
    have keptBefore := keptThen.after before
    have oldBefore := Nat.lt_of_lt_of_le old (keptThen.built_le_after before)
    rw [after_append] at stays
    have oldBehind := Nat.lt_of_lt_of_le oldBefore (keptBefore.built_le_after [r])
    exact keptBefore.request_eq ((keptBefore.next r).mem_of_mem_after oldBehind stays) here
  · rintro ⟨alone, spared⟩
    have holds : c'.Holds s [] := ⟨[], older, first, rfl⟩
    exact keptLater.get_of_mem (keptThen.holds_after holds alone (capacity ▸ spared)).mem ⟨rfl, rfl, rfl⟩

/-- Whatever was asked of a cache before, it gives what an analysis gives. It holds a document at most once, and no
    more documents than it has room for. It gives the very snapshot that it gave before exactly if nothing else was
    asked about the document since, and the document was not evicted. -/
theorem get_transparent (capacity : Int) (rs : List Request) :
    let c := (empty capacity).after rs
    (c.entries.map Snapshot.uri).Nodup ∧ c.size ≤ (if capacity ≤ 0 then 64 else capacity.toNat) ∧
    ∀ (uri : Bytes) (version : Int64) (text : Bytes),
      (∃ serial, (c.get uri version text).1 = Snapshot.analyze serial uri version text) ∧
      ∀ later : List Request,
        (((c.get uri version text).2.after later).get uri version text).1 = (c.get uri version text).1 ↔
          (∀ r ∈ later, r.uri = uri → r = .get uri version text) ∧
          ¬ Evicted (if capacity ≤ 0 then 64 else capacity.toNat) uri later := by
  intro c
  have kept : c.IsKept := (isKept_empty capacity).after rs
  have sound : c.IsSound := isSound_after (isSound_empty capacity) rs
  have room : c.capacity = if capacity ≤ 0 then 64 else capacity.toNat := (isKept_empty capacity).capacity_after rs
  rw [← room]
  refine ⟨kept.once, kept.fits, fun uri version text => ?_⟩
  exact ⟨exists_analyze_get sound uri version text, (kept.got_get uri version text).get_after_eq_iff kept⟩

end Cache

end Colloquy
