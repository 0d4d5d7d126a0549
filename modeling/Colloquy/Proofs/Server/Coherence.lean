import Colloquy.Proofs.Server.Address
import Colloquy.Proofs.Server.Event
import Colloquy.Proofs.Server.Findings

/-! # What is published follows what is open

The server remembers which documents the editor shows findings for. `Coherent` ties that to the documents that are
open and to what the editor was told last about each address, and every event keeps it. A document is current when
the editor was told last what was found in its text, under its version.
-/

namespace Colloquy

/-! ## Addresses -/

theorem Uri.isUtf8_canonical {t : Bytes} (valid : t.isUtf8 = true) (cwd : Bytes) : (canonical cwd t).isUtf8 = true := by
  have marks : ∀ b ∈ Web.Part.path.marks, b < 0x80 := by decide +kernel
  have allowed : ∀ b : UInt8, Web.Part.path.allows b = true → b < 0x80 := by
    intro b plain
    rw [Web.Part.allows, Bool.or_eq_true, List.any_eq_true] at plain
    obtain unreserved | ⟨mark, member, same⟩ := plain
    · simp only [Web.isUnreserved, Bytes.isLetter, Bytes.isDigit, Bool.or_eq_true, Bool.and_eq_true,
        decide_eq_true_eq, beq_iff_eq, UInt8.le_iff_toNat_le, ← UInt8.toNat_inj] at unreserved
      rw [UInt8.lt_iff_toNat_lt]
      simp only [UInt8.reduceToNat] at unreserved ⊢
      omega
    · exact beq_iff_eq.mp same ▸ marks mark member
  have front : ∀ b ∈ utf8 "file://", b < 0x80 := by decide +kernel
  unfold canonical
  split
  · unfold ofPath
    split
    · rfl
    · refine Bytes.isUtf8_of_ascii fun b member => ?_
      obtain member | member := List.mem_append.mp member
      · exact front b member
      · obtain rfl | plain := Web.mem_escape member
        · decide
        · exact allowed b plain
  · exact valid

namespace Params

theorem isUtf8_uri {t t' : Bytes} {j : Json} (before : t.isUtf8 = true) (read : uri t j = some t') :
    t'.isUtf8 = true := by
  refine Json.decodeRecord_keeps (P := fun t : Bytes => t.isUtf8 = true) ?_ before read
  intro f member a j a' before step
  obtain rfl := List.mem_singleton.mp member
  exact Json.isUtf8_decodeText before step

theorem isUtf8_closed {t t' : Bytes} {j : Json} (before : t.isUtf8 = true) (read : closed t j = some t') :
    t'.isUtf8 = true := by
  refine Json.decodeRecord_keeps (P := fun t : Bytes => t.isUtf8 = true) ?_ before read
  intro f member a j a' before step
  obtain rfl := List.mem_singleton.mp member
  exact isUtf8_uri before step

theorem Opened.isUtf8_uri {d d' : Opened} {j : Json} (before : d.uri.isUtf8 = true) (read : decode d j = some d') :
    d'.uri.isUtf8 = true := by
  refine Json.decodeRecord_keeps (P := fun d : Opened => d.uri.isUtf8 = true) ?_ before read
  intro f member d j d' before read
  obtain rfl := List.mem_singleton.mp member
  refine Json.decodeRecord_keeps (P := fun d : Opened => d.uri.isUtf8 = true) ?_ before read
  intro f member d j d' before step
  simp only [List.mem_cons, List.not_mem_nil, or_false] at member
  obtain rfl | rfl | rfl | rfl := member
  · obtain ⟨t, read, rfl⟩ := Option.map_eq_some_iff.mp step
    exact Json.isUtf8_decodeText before read
  all_goals
    obtain ⟨-, -, rfl⟩ := Option.map_eq_some_iff.mp step
    exact before

theorem Changed.isUtf8_uri {d d' : Changed} {j : Json} (before : d.uri.isUtf8 = true) (read : decode d j = some d') :
    d'.uri.isUtf8 = true := by
  refine Json.decodeRecord_keeps (P := fun d : Changed => d.uri.isUtf8 = true) ?_ before read
  intro f member d j d' before read
  simp only [List.mem_cons, List.not_mem_nil, or_false] at member
  obtain rfl | rfl := member
  · refine Json.decodeRecord_keeps (P := fun d : Changed => d.uri.isUtf8 = true) ?_ before read
    intro f member d j d' before step
    simp only [List.mem_cons, List.not_mem_nil, or_false] at member
    obtain rfl | rfl := member
    · obtain ⟨t, read, rfl⟩ := Option.map_eq_some_iff.mp step
      exact Json.isUtf8_decodeText before read
    · obtain ⟨-, -, rfl⟩ := Option.map_eq_some_iff.mp step
      exact before
  · obtain ⟨-, -, rfl⟩ := Option.map_eq_some_iff.mp read
    exact before

theorem Saved.isUtf8_uri {d d' : Saved} {j : Json} (before : d.uri.isUtf8 = true) (read : decode d j = some d') :
    d'.uri.isUtf8 = true := by
  refine Json.decodeRecord_keeps (P := fun d : Saved => d.uri.isUtf8 = true) ?_ before read
  intro f member d j d' before step
  simp only [List.mem_cons, List.not_mem_nil, or_false] at member
  obtain rfl | rfl := member
  · obtain ⟨t, read, rfl⟩ := Option.map_eq_some_iff.mp step
    exact Params.isUtf8_uri before read
  · obtain ⟨-, -, rfl⟩ := Option.map_eq_some_iff.mp step
    exact before

end Params

/-- The address in a notice is valid UTF-8, since it was read from a JSON text. -/
theorem Notice.isUtf8_address {m : Message} {n : Notice} (carried : of? m = some n) (cwd : Bytes) :
    (n.address cwd).isUtf8 = true := by
  unfold of? at carried
  split_ifs at carried
  all_goals
    obtain ⟨params, read, rfl⟩ := Option.map_eq_some_iff.mp carried
    obtain ⟨j, -, read⟩ := Option.bind_eq_some_iff.mp read
  · exact Uri.isUtf8_canonical (Params.Opened.isUtf8_uri rfl read) cwd
  · exact Uri.isUtf8_canonical (Params.Changed.isUtf8_uri rfl read) cwd
  · exact Uri.isUtf8_canonical (Params.Saved.isUtf8_uri rfl read) cwd
  · exact Uri.isUtf8_canonical (Params.isUtf8_closed rfl read) cwd

namespace Server

/-! ## Findings -/

/-- What is found in a document by a server that has no analysis of it at hand. -/
def Computed (d : OpenDocument) (findings : List Wire.Finding) : Prop :=
  ∃ (s : Server) (host : Host), s.cache = Cache.empty 0 ∧ (s.diagnose host d).1 = findings

theorem subjectOf_eq {s : Server} (sound : s.cache.IsSound) (host : Host) (d : OpenDocument) :
    s.subjectOf host d = { s with cache := Cache.empty 0 }.subjectOf host d := by
  obtain ⟨n, here⟩ := Cache.exists_analyze_get sound d.uri d.version d.text
  obtain ⟨m, there⟩ := Cache.exists_analyze_get (Cache.isSound_empty 0) d.uri d.version d.text
  simp only [subjectOf, viewOf, DocumentView.subject, DocumentView.headerLayer, here, there]
  rfl

theorem computed_diagnose {s : Server} (sound : s.cache.IsSound) (host : Host) (d : OpenDocument) :
    Computed d (s.diagnose host d).1 := by
  refine ⟨{ s with cache := Cache.empty 0 }, host, rfl, ?_⟩
  simp only [diagnose_fst, findings, subjectOf_eq sound]

/-- The editor was told last what was found in the text of the document, and under its version. -/
def IsCurrent (s : Server) (d : OpenDocument) : Prop :=
  ∃ findings, Computed d findings ∧
    s.lastPublication? d.uri = some ⟨d.uri, some d.version, findings.map Wire.Finding.toJson⟩

theorem IsCurrent.of_last {s s' : Server} {d : OpenDocument}
    (same : s'.lastPublication? d.uri = s.lastPublication? d.uri) (current : IsCurrent s d) : IsCurrent s' d := by
  obtain ⟨findings, computed, last⟩ := current
  exact ⟨findings, computed, same.trans last⟩

/-! ## Coherence -/

/-- What the server remembers of its publications fits the open documents, and what it has sent. -/
structure Coherent (s : Server) : Prop where
  keyed : s.Keyed
  addressed : ∀ d ∈ s.documents, d.uri ≠ [] ∧ d.uri.isUtf8 = true
  /-- Whatever opens a document schedules a check. -/
  scheduled : s.schedule = 0 → s.documents = []
  opened : ∀ uri ∈ s.published, ∃ d ∈ s.documents, d.uri = uri
  versioned : ∀ uri, uri ∈ s.published ↔ ∃ p v, s.lastPublication? uri = some p ∧ p.version = some v
  cleared : ∀ p ∈ s.publications, p.version = none → p.findings = []
  cache : s.cache.IsSound

theorem Fresh.coherent {s : Server} (fresh : s.Fresh) : Coherent s where
  keyed := fun uri => by rw [version?, text?, fresh.versions, fresh.texts]; rfl
  addressed := by simp [fresh.documents]
  scheduled := fun _ => fresh.documents
  opened := by simp [fresh.published]
  versioned := by simp [fresh.published, lastPublication?, publications, fresh.sent]
  cleared := by simp [publications, fresh.sent]
  cache := fresh.cache

theorem Steady.lastPublication?_eq {s s' : Server} (steady : Steady s s') (uri : Bytes) :
    s'.lastPublication? uri = s.lastPublication? uri := by
  rw [lastPublication?, steady.publications, ← lastPublication?]

/-! ## Announcing and closing -/

theorem mem_published_announce {s : Server} {d : OpenDocument} {findings : List Wire.Finding} {uri : Bytes} :
    uri ∈ (s.announce d findings).published ↔ d.uri = uri ∨ uri ∈ s.published := by
  change uri ∈ (if s.published.any (· == d.uri) then s.published else d.uri :: s.published) ↔ _
  split
  · rename_i known
    have member : d.uri ∈ s.published := by simpa using known
    exact ⟨.inr, fun either => either.elim (· ▸ member) id⟩
  · rw [List.mem_cons, eq_comm]

theorem publications_announce (s : Server) {d : OpenDocument} (valid : d.uri.isUtf8 = true)
    (findings : List Wire.Finding) :
    (s.announce d findings).publications =
      ⟨d.uri, some d.version, findings.map Wire.Finding.toJson⟩ :: s.publications :=
  publications_publish _ valid _ findings

theorem lastPublication?_announce (s : Server) {d : OpenDocument} (valid : d.uri.isUtf8 = true)
    (findings : List Wire.Finding) (uri : Bytes) :
    (s.announce d findings).lastPublication? uri =
      if d.uri = uri then some ⟨d.uri, some d.version, findings.map Wire.Finding.toJson⟩
      else s.lastPublication? uri :=
  lastPublication?_publish _ valid _ findings uri

theorem mem_documents_putDocument {s : Server} {d e : OpenDocument} :
    e ∈ (s.putDocument d).documents ↔ e = d ∨ (e ∈ s.documents ∧ d.uri ≠ e.uri) := by
  simp only [mem_documents_iff, text?, versionOf, putDocument, Table.get?_set]
  split
  · rename_i same
    obtain ⟨uri, text, version⟩ := d
    obtain rfl : uri = e.uri := same
    cases e
    simp [eq_comm]
  · rename_i other
    refine ⟨fun held => .inr ⟨held, other⟩, ?_⟩
    rintro (rfl | held)
    · exact absurd rfl other
    · exact held.1

theorem tables_closeAt (s : Server) (uri : Bytes) :
    (s.closeAt uri).texts = s.texts.erase uri ∧ (s.closeAt uri).versions = s.versions.erase uri := by
  unfold closeAt
  dsimp only
  split <;> exact ⟨rfl, rfl⟩

theorem mem_documents_closeAt {s : Server} {uri : Bytes} {d : OpenDocument} :
    d ∈ (s.closeAt uri).documents ↔ d ∈ s.documents ∧ d.uri ≠ uri := by
  obtain ⟨texts, versions⟩ := tables_closeAt s uri
  simp only [mem_documents_iff, text?, versionOf, texts, versions, Table.get?_erase]
  split
  · rename_i same
    simp [same]
  · rename_i other
    simp [Ne.symm other]

theorem published_closeAt (s : Server) (uri : Bytes) : (s.closeAt uri).published = s.published.filter (· != uri) := by
  unfold closeAt
  dsimp only
  split <;> rfl

theorem schedule_closeAt (s : Server) (uri : Bytes) : (s.closeAt uri).schedule = s.schedule := by
  unfold closeAt
  dsimp only
  split <;> rfl

theorem cache_closeAt (s : Server) (uri : Bytes) : (s.closeAt uri).cache = s.cache.forget uri := by
  unfold closeAt
  dsimp only
  split <;> rfl

theorem publications_closeAt (s : Server) {uri : Bytes} (valid : uri.isUtf8 = true) :
    (s.closeAt uri).publications =
      if uri ∈ s.published then ⟨uri, none, []⟩ :: s.publications else s.publications := by
  unfold closeAt
  dsimp only
  split
  · rename_i known
    rw [publications_publish _ valid, if_pos (by simpa using known)]
    rfl
  · rename_i unknown
    rw [if_neg (by simpa using unknown)]
    rfl

theorem lastPublication?_closeAt (s : Server) {uri : Bytes} (valid : uri.isUtf8 = true) (other : Bytes) :
    (s.closeAt uri).lastPublication? other =
      if uri ∈ s.published ∧ uri = other then some ⟨uri, none, []⟩ else s.lastPublication? other := by
  rw [lastPublication?, publications_closeAt s valid]
  split
  · rename_i known
    by_cases same : uri = other
    · rw [List.find?_cons_of_pos (by simpa using same), if_pos ⟨known, same⟩]
    · rw [List.find?_cons_of_neg (by simpa using same), if_neg (same ∘ And.right), lastPublication?]
  · rename_i unknown
    rw [if_neg (unknown ∘ And.left), lastPublication?]

/-- What was published about documents is cleared, and nothing else has changed. -/
structure Cleared (uris : List Bytes) (s s' : Server) : Prop extends SameDocuments s s' where
  published : s'.published = s.published
  schedule : s'.schedule = s.schedule
  cache : s'.cache = s.cache
  last : ∀ uri, s'.lastPublication? uri = if uri ∈ uris then some ⟨uri, none, []⟩ else s.lastPublication? uri
  publications : ∀ p ∈ s'.publications, p ∈ s.publications ∨ p.findings = []

theorem cleared_publish {uris : List Bytes} (valid : ∀ uri ∈ uris, uri.isUtf8 = true) (s : Server) :
    Cleared uris s (uris.foldl (fun s uri => s.publish uri none []) s) := by
  induction uris generalizing s with
  | nil => exact ⟨.refl s, rfl, rfl, rfl, fun uri => by simp, fun p => .inl⟩
  | cons uri uris ih =>
      have here := valid uri List.mem_cons_self
      have rest := ih (fun uri member => valid uri (List.mem_cons_of_mem _ member)) (s.publish uri none [])
      refine ⟨⟨rest.texts, rest.versions⟩, rest.published, rest.schedule, rest.cache, fun other => ?_, fun p sent => ?_⟩
      · rw [List.foldl_cons, rest.last, lastPublication?_publish s here]
        by_cases later : other ∈ uris
        · simp [later]
        · by_cases same : uri = other
          · simp [later, same]
          · simp [later, same, Ne.symm same]
      · obtain before | empty := rest.publications p sent
        · rw [publications_publish s here] at before
          obtain rfl | before := List.mem_cons.mp before
          · exact .inr rfl
          · exact .inl before
        · exact .inr empty

namespace Coherent

theorem steady {s s' : Server} (coherent : Coherent s) (steady : Steady s s') : Coherent s' where
  keyed := coherent.keyed.same steady.toSameDocuments
  addressed := by simpa only [steady.documents] using coherent.addressed
  scheduled := fun zero => by
    rw [steady.documents]
    exact coherent.scheduled (Nat.le_zero.mp (zero ▸ steady.schedule))
  opened := by simpa only [steady.documents, steady.published] using coherent.opened
  versioned := fun uri => by
    rw [steady.published, steady.lastPublication?_eq]
    exact coherent.versioned uri
  cleared := by simpa only [steady.publications] using coherent.cleared
  cache := steady.cache coherent.cache

theorem traced {s : Server} (coherent : Coherent s) (t : Trace.Tracer) : Coherent { s with tracer := t } :=
  coherent.steady ⟨⟨rfl, rfl⟩, rfl, rfl, Nat.le_refl _, id⟩

theorem put {s : Server} (coherent : Coherent s) {d : OpenDocument} (named : d.uri ≠ []) (valid : d.uri.isUtf8 = true)
    (keyed : (s.putDocument d).scheduleCheck.Keyed) : Coherent (s.putDocument d).scheduleCheck where
  keyed := keyed
  addressed := by
    intro e member
    obtain rfl | member := mem_documents_putDocument.mp member
    · exact ⟨named, valid⟩
    · exact coherent.addressed e member.1
  scheduled := fun zero => absurd zero (Nat.succ_ne_zero _)
  opened := by
    intro uri member
    obtain ⟨e, here, rfl⟩ := coherent.opened uri member
    by_cases same : d.uri = e.uri
    · exact ⟨d, mem_documents_putDocument.mpr (.inl rfl), same⟩
    · exact ⟨e, mem_documents_putDocument.mpr (.inr ⟨here, same⟩), rfl⟩
  versioned := coherent.versioned
  cleared := coherent.cleared
  cache := coherent.cache

theorem announce {s : Server} (coherent : Coherent s) {d : OpenDocument} (member : d ∈ s.documents)
    (findings : List Wire.Finding) : Coherent (s.announce d findings) where
  keyed := coherent.keyed.same ⟨rfl, rfl⟩
  addressed := coherent.addressed
  scheduled := coherent.scheduled
  opened := by
    intro uri published
    rw [mem_published_announce] at published
    obtain rfl | before := published
    · exact ⟨d, member, rfl⟩
    · exact coherent.opened uri before
  versioned := by
    intro uri
    rw [mem_published_announce, lastPublication?_announce s (coherent.addressed d member).2]
    split
    · rename_i same
      exact ⟨fun _ => ⟨_, _, rfl, rfl⟩, fun _ => .inl same⟩
    · rename_i other
      rw [or_iff_right other]
      exact coherent.versioned uri
  cleared := by
    intro p sent anonymous
    rw [publications_announce s (coherent.addressed d member).2] at sent
    obtain rfl | before := List.mem_cons.mp sent
    · cases anonymous
    · exact coherent.cleared p before anonymous
  cache := coherent.cache

theorem close {s : Server} (coherent : Coherent s) {uri : Bytes} (valid : uri.isUtf8 = true)
    (keyed : (s.closeAt uri).Keyed) : Coherent (s.closeAt uri) where
  keyed := keyed
  addressed := fun d member => coherent.addressed d (mem_documents_closeAt.mp member).1
  scheduled := fun zero => by
    rw [schedule_closeAt] at zero
    refine List.eq_nil_iff_forall_not_mem.mpr fun d member => ?_
    have before := (mem_documents_closeAt.mp member).1
    rw [coherent.scheduled zero] at before
    exact List.not_mem_nil before
  opened := by
    intro other published
    rw [published_closeAt, List.mem_filter, bne_iff_ne] at published
    obtain ⟨d, member, rfl⟩ := coherent.opened other published.1
    exact ⟨d, mem_documents_closeAt.mpr ⟨member, published.2⟩, rfl⟩
  versioned := by
    intro other
    rw [published_closeAt, List.mem_filter, bne_iff_ne, lastPublication?_closeAt s valid]
    split
    · rename_i gone
      exact ⟨fun left => absurd gone.2.symm left.2, by rintro ⟨p, v, ⟨⟩, ⟨⟩⟩⟩
    · rename_i kept
      rw [← coherent.versioned other]
      exact ⟨And.left, fun member => ⟨member, fun same => kept ⟨same ▸ member, same.symm⟩⟩⟩
  cleared := by
    intro p sent anonymous
    rw [publications_closeAt s valid] at sent
    split at sent
    · obtain rfl | before := List.mem_cons.mp sent
      · rfl
      · exact coherent.cleared p before anonymous
    · exact coherent.cleared p sent anonymous
  cache := by
    rw [cache_closeAt]
    exact Cache.isSound_forget coherent.cache uri

theorem clear {s s' : Server} (coherent : Coherent s)
    (cleared : Cleared (Bytes.sorted s.published) { s with published := [] } s') : Coherent s' where
  keyed := coherent.keyed.same ⟨cleared.texts, cleared.versions⟩
  addressed := by
    rw [cleared.documents]
    exact coherent.addressed
  scheduled := by
    rw [cleared.documents, cleared.schedule]
    exact coherent.scheduled
  opened := by simp [cleared.published]
  versioned := by
    intro uri
    simp only [cleared.published, List.not_mem_nil, false_iff]
    rintro ⟨p, v, last, version⟩
    rw [cleared.last] at last
    split at last
    · obtain rfl := Option.some.inj last
      cases version
    · rename_i unpublished
      have published := (coherent.versioned uri).mpr ⟨p, v, last, version⟩
      exact unpublished (List.mem_mergeSort.mpr published)
  cleared := fun p sent anonymous =>
    (cleared.publications p sent).elim (coherent.cleared p · anonymous) id
  cache := by simpa only [cleared.cache] using coherent.cache

theorem isUtf8_of_published {s : Server} (coherent : Coherent s) {uri : Bytes} (member : uri ∈ s.published) :
    uri.isUtf8 = true := by
  obtain ⟨d, here, rfl⟩ := coherent.opened uri member
  exact (coherent.addressed d here).2

theorem shutdown {s : Server} (coherent : Coherent s) (m : Message) : Coherent (s.shutdown m) := by
  have valid : ∀ uri ∈ Bytes.sorted s.published, uri.isUtf8 = true := fun uri member =>
    coherent.isUtf8_of_published (List.mem_mergeSort.mp member)
  have cleared := cleared_publish valid { s with published := [], shutdownRequested := true }
  have flagged : Coherent { s with shutdownRequested := true } :=
    coherent.steady ⟨⟨rfl, rfl⟩, rfl, rfl, Nat.le_refl _, id⟩
  exact (flagged.clear cleared).steady (answers_response m _ .null).steady

theorem check {s : Server} (coherent : Coherent s) (host : Host) {d : OpenDocument} (member : d ∈ s.documents) :
    Coherent (s.checkDocument host d) := by
  have aside := (aside_diagnose s host d).1
  refine (coherent.steady aside.steady).announce ?_ _
  rwa [aside.documents]

theorem runSchedule {s : Server} (coherent : Coherent s) (host : Host) (n : Nat) : Coherent (s.runSchedule host n) := by
  refine (runSchedule_keeps (P := fun t => Coherent t ∧ t.documents = s.documents) ⟨?_, ?_, ?_⟩ n ⟨coherent, rfl⟩).1
  · rintro t tracer ⟨coherent, same⟩
    exact ⟨coherent.traced tracer, same⟩
  · rintro d t ⟨coherent, same⟩
    have aside := (aside_diagnose t host d).1
    exact ⟨coherent.steady aside.steady, aside.documents.trans same⟩
  · rintro d member t findings ⟨coherent, same⟩
    exact ⟨coherent.announce (same ▸ member) findings, same⟩

theorem noticed {s s' : Server} {cwd : Bytes} {n : Notice} (coherent : Coherent s)
    (valid : (n.address cwd).isUtf8 = true) (keyed : s'.Keyed) (noticed : Noticed s cwd n s') : Coherent s' := by
  cases noticed with
  | ignored => exact coherent
  | put address named => exact coherent.put named (address ▸ valid) keyed
  | touched => exact coherent.steady ⟨⟨rfl, rfl⟩, rfl, rfl, Nat.le_succ _, id⟩
  | closed => exact coherent.close valid keyed

theorem stepped {s s' : Server} {e : Event} (coherent : Coherent s) (stepped : Stepped s e s') : Coherent s' := by
  cases stepped with
  | @noticed n t carried =>
      obtain ⟨m, -, notice⟩ := Option.bind_eq_some_iff.mp carried
      have keyed := coherent.keyed.notice e.host n
      exact (coherent.noticed (Notice.isUtf8_address notice _) keyed (noticed_notice s e.host n)).traced t
  | shutdown t => exact (coherent.shutdown _).traced t
  | checked => exact coherent.runSchedule e.host _
  | besides _ _ steady => exact coherent.steady steady

theorem after {s : Server} (coherent : Coherent s) (f : Features) (es : List Event) : Coherent (s.after es f) := by
  induction es generalizing s with
  | nil => exact coherent
  | cons e es ih => exact ih (coherent.stepped (Server.stepped f s e))

end Coherent

/-! ## Current documents -/

/-- What is announced of a document is current, and other documents stay so. -/
theorem Coherent.isCurrent_announce {s : Server} (coherent : Coherent s) {d e : OpenDocument}
    {findings : List Wire.Finding} (computed : Computed d findings) (first : d ∈ s.documents) (second : e ∈ s.documents)
    (either : e = d ∨ IsCurrent s e) : IsCurrent (s.announce d findings) e := by
  have last := lastPublication?_announce s (coherent.addressed d first).2 findings e.uri
  by_cases same : d.uri = e.uri
  · obtain rfl := eq_of_mem_documents first second same
    rw [if_pos rfl] at last
    exact ⟨findings, computed, last⟩
  · rw [if_neg same] at last
    exact (either.resolve_left fun eq => same (eq ▸ rfl)).of_last last

theorem Coherent.isCurrent_check {s : Server} (coherent : Coherent s) (host : Host) {d e : OpenDocument}
    (first : d ∈ s.documents) (second : e ∈ s.documents) (either : e = d ∨ IsCurrent s e) :
    IsCurrent (s.checkDocument host d) e := by
  have aside := (aside_diagnose s host d).1
  refine (coherent.steady aside.steady).isCurrent_announce (computed_diagnose coherent.cache host d) ?_ ?_ ?_
  · rwa [aside.documents]
  · rwa [aside.documents]
  · exact either.imp_right (·.of_last (aside.steady.lastPublication?_eq e.uri))

/-- A sweep that nothing disturbs leaves every document current that it has gone through. -/
theorem Coherent.isCurrent_through {s : Server} (coherent : Coherent s) (host : Host) {w : Sweep}
    {ds : List OpenDocument} (goesOn : w.ended = false) (latest : w.schedule = s.schedule) (left : w.left = ds)
    (unfound : w.found = none) (opened : ∀ d ∈ ds, d ∈ s.documents) {e : OpenDocument} (member : e ∈ s.documents)
    (either : e ∈ ds ∨ IsCurrent s e) : IsCurrent (Sweep.through host ds (s, w)).1 e := by
  induction ds generalizing s w with
  | nil =>
      have ends : w.advance host s = w.stop s := by simp [Sweep.advance, goesOn, left]
      rw [Sweep.through, ends]
      exact (either.resolve_left List.not_mem_nil).of_last rfl
  | cons d ds ih =>
      have here := opened d List.mem_cons_self
      have two := Sweep.advance_advance coherent.keyed host goesOn latest left unfound here
      have same := (sameDocuments_checkDocument s host d).documents
      rw [Sweep.through]
      dsimp only
      rw [two]
      refine ih (coherent.check host here) goesOn ?_ rfl unfound ?_ (same ▸ member) ?_
      · exact latest.trans (aside_diagnose s host d).2.symm
      · exact fun d member => same ▸ opened d (List.mem_cons_of_mem _ member)
      · obtain listed | current := either
        · obtain rfl | later := List.mem_cons.mp listed
          · exact .inr (coherent.isCurrent_check host here member (.inl rfl))
          · exact .inl later
        · exact .inr (coherent.isCurrent_check host here member (.inr current))

/-- A schedule that is carried out makes every document current if it is the latest, and leaves every one so. -/
theorem Coherent.isCurrent_runSchedule {s : Server} (coherent : Coherent s) (host : Host) {n : Nat} {d : OpenDocument}
    (member : d ∈ s.documents) (either : n = s.schedule ∨ IsCurrent s d) : IsCurrent (s.runSchedule host n) d := by
  by_cases latest : n = s.schedule
  · subst latest
    have scheduled : s.schedule ≠ 0 := fun never => by
      rw [coherent.scheduled never] at member
      exact List.not_mem_nil member
    have listed : d ∈ s.sortedDocuments := List.mem_mergeSort.mpr member
    have begun : Coherent (Sweep.start s).1 := coherent.traced _
    rw [runSchedule_latest scheduled]
    exact begun.isCurrent_through host (w := (Sweep.start s).2) rfl rfl rfl rfl (fun d => List.mem_mergeSort.mp) member
      (.inl listed)
  · rw [runSchedule_dropped (.inr latest)]
    exact either.resolve_left latest

end Server

end Colloquy
