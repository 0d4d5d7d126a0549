import Colloquy.Server.Dispatch
import Mathlib.Tactic.SplitIfs

/-! # Notifications about documents

Four messages change which documents are open and what they hold. `Notice.of?` reads them as the server
does, and `handle_notice` says once what each of them does to the text of every document: the document that
it concerns takes the notice's effect, and every other one stays as it is. A notice without an address
concerns no document. Texts and versions are in tables of their own; `Keyed` says that a document has either both or
none, and each handler keeps it.
-/

namespace Colloquy

deriving instance DecidableEq for Change, Params.Opened, Params.Changed, Params.Saved

/-- A notification about a document with its parameters. -/
inductive Notice where
  | opened (d : Params.Opened)
  | changed (d : Params.Changed)
  | saved (d : Params.Saved)
  | closed (uri : Bytes)
  deriving DecidableEq

namespace Notice

/-- The notice that a message carries. -/
def of? (m : Message) : Option Notice :=
  if m.method = utf8 "textDocument/didOpen" then (m.required Params.Opened.decode {}).map .opened
  else if m.method = utf8 "textDocument/didChange" then (m.required Params.Changed.decode {}).map .changed
  else if m.method = utf8 "textDocument/didSave" then (m.required Params.Saved.decode {}).map .saved
  else if m.method = utf8 "textDocument/didClose" then (m.required Params.closed []).map .closed
  else none

/-- The canonical address of the document that a notice names. -/
def address (cwd : Bytes) : Notice → Bytes
  | .opened d => Uri.canonical cwd d.uri
  | .changed d => Uri.canonical cwd d.uri
  | .saved d => Uri.canonical cwd d.uri
  | .closed uri => Uri.canonical cwd uri

/-- Whether a notice is addressed to a document. -/
def concerns (cwd uri : Bytes) (n : Notice) : Bool := !uri.isEmpty && n.address cwd == uri

/-- What a notice does to the text of the document that it concerns. -/
def effect : Notice → Option Bytes → Option Bytes
  | .opened d, _ => some d.text
  | .changed d, held => some (Change.applyAll (held.getD []) d.changes.items)
  | .saved d, held => held.map fun known => d.text.getD known
  | .closed _, _ => none

theorem filter_carried {ms : List Message} {ns : List Notice} (carried : ms.map of? = ns.map some)
    (keep : Notice → Bool) :
    (ms.filter fun m => (of? m).any keep).map of? = (ns.filter keep).map some := by
  have chosen := congrArg (List.filter (Option.any keep)) carried
  rw [List.filter_map, List.filter_map] at chosen
  exact chosen

end Notice

namespace Server

/-- The text that the server holds for an address. -/
def text? (s : Server) (uri : Bytes) : Option Bytes := s.texts.get? uri

/-- The version that the server holds for an address. -/
def version? (s : Server) (uri : Bytes) : Option Int64 := s.versions.get? uri

/-- Handle messages until one stops the server. -/
def handleAll (host : Host) : Server → List Message → Server × Option ServerStop
  | s, [] => (s, none)
  | s, m :: ms =>
    match s.handle host m with
    | (s, none) => handleAll host s ms
    | (s, some stop) => (s, some stop)

/-- What the server does with a notice. -/
def notice (s : Server) (host : Host) : Notice → Server
  | .opened d => s.openDocument host d
  | .changed d => s.changeDocument host d
  | .saved d => s.saveDocument host d
  | .closed uri => s.closeDocument host uri

/-! ## What each notice does to the texts -/

/-- Every notice is dropped when it has no address, and otherwise changes one document. -/
theorem text?_addressed {s s' : Server} {addr uri : Bytes} {new : Option Bytes}
    (done : s'.text? uri = if addr = uri then new else s.text? uri) :
    (if addr.isEmpty then s else s').text? uri =
      if (!uri.isEmpty && addr == uri) then new else s.text? uri := by
  by_cases same : addr = uri
  · subst same
    cases addr with
    | nil => rfl
    | cons b rest => simpa using done
  · have other : (addr == uri) = false := by simpa using same
    rw [if_neg same] at done
    simp only [other, Bool.and_false, Bool.false_eq_true, if_false]
    split
    · rfl
    · exact done

theorem text?_openDocument (s : Server) (host : Host) (d : Params.Opened) (uri : Bytes) :
    (s.openDocument host d).text? uri =
      if (Notice.opened d).concerns host.cwd uri then some d.text else s.text? uri :=
  text?_addressed (Table.get?_set ..)

theorem text?_changeDocument (s : Server) (host : Host) (d : Params.Changed) (uri : Bytes) :
    (s.changeDocument host d).text? uri =
      if (Notice.changed d).concerns host.cwd uri then
        some (Change.applyAll ((s.text? uri).getD []) d.changes.items)
      else s.text? uri := by
  refine text?_addressed ((Table.get?_set ..).trans ?_)
  by_cases same : Uri.canonical host.cwd d.uri = uri
  · subst same
    rfl
  · rw [if_neg same, if_neg same, text?]

theorem text?_saveDocument (s : Server) (host : Host) (d : Params.Saved) (uri : Bytes) :
    (s.saveDocument host d).text? uri =
      if (Notice.saved d).concerns host.cwd uri then (s.text? uri).map fun known => d.text.getD known
      else s.text? uri := by
  refine text?_addressed ?_
  generalize Uri.canonical host.cwd d.uri = addr
  -- Without both a known document and a text nothing is put.
  have kept (same : (s.text? addr).map (fun known => d.text.getD known) = s.text? addr) :
      s.text? uri = if addr = uri then (s.text? uri).map fun known => d.text.getD known else s.text? uri :=
    (ite_eq_right_iff.mpr fun here => here ▸ same).symm
  cases known : s.texts.get? addr with
  | none => exact kept (by rw [text?, known]; rfl)
  | some held =>
      cases sent : d.text with
      | none => rw [sent] at kept; exact kept Option.map_id'
      | some text =>
          rw [sent] at kept
          simp only
          split
          · rename_i same
            refine kept ?_
            rw [text?, known]
            exact congrArg some (eq_of_beq same).symm
          · refine (Table.get?_set ..).trans ?_
            split
            · rename_i here
              rw [← here, text?, known]
              rfl
            · rfl

theorem text?_closeDocument (s : Server) (host : Host) (given uri : Bytes) :
    (s.closeDocument host given).text? uri =
      if (Notice.closed given).concerns host.cwd uri then none else s.text? uri := by
  refine text?_addressed ?_
  generalize Uri.canonical host.cwd given = addr
  split
  · exact Table.get?_erase ..
  · exact Table.get?_erase ..

theorem text?_notice (s : Server) (host : Host) (n : Notice) (uri : Bytes) :
    (s.notice host n).text? uri =
      if n.concerns host.cwd uri then n.effect (s.text? uri) else s.text? uri := by
  cases n with
  | opened d => exact text?_openDocument s host d uri
  | changed d => exact text?_changeDocument s host d uri
  | saved d => exact text?_saveDocument s host d uri
  | closed given => exact text?_closeDocument s host given uri

/-! ## Open documents

What is open is read off the table of texts; the version comes from the other one.
-/

theorem document?_eq_some_iff {s : Server} {uri : Bytes} {d : OpenDocument} :
    s.document? uri = some d ↔ d ∈ s.documents ∧ d.uri = uri := by
  simp only [document?, documents, Option.map_eq_some_iff, List.mem_map, Table.get?_eq_some_iff]
  constructor
  · rintro ⟨text, held, rfl⟩
    exact ⟨⟨(uri, text), held, rfl⟩, rfl⟩
  · rintro ⟨⟨e, held, rfl⟩, rfl⟩
    exact ⟨e.2, held, rfl⟩

theorem mem_documents_iff {s : Server} {d : OpenDocument} :
    d ∈ s.documents ↔ s.text? d.uri = some d.text ∧ s.versionOf d.uri = d.version := by
  have self : d ∈ s.documents ↔ s.document? d.uri = some d := by simp [document?_eq_some_iff]
  obtain ⟨uri, text, version⟩ := d
  rw [self, document?, Option.map_eq_some_iff]
  simp only [OpenDocument.mk.injEq, true_and]
  constructor
  · rintro ⟨held, found, rfl, same⟩
    exact ⟨found, same⟩
  · rintro ⟨found, same⟩
    exact ⟨text, found, rfl, same⟩

theorem nodup_documents (s : Server) : (s.documents.map OpenDocument.uri).Nodup := by
  have keys : s.documents.map OpenDocument.uri = s.texts.entries.map Prod.fst := List.map_map
  rw [keys]
  exact s.texts.nodup

/-- An address belongs to one document. -/
theorem eq_of_mem_documents {s : Server} {d e : OpenDocument} (first : d ∈ s.documents) (second : e ∈ s.documents)
    (same : d.uri = e.uri) : d = e := by
  have found := document?_eq_some_iff.mpr ⟨first, same⟩
  exact Option.some.inj (found.symm.trans (document?_eq_some_iff.mpr ⟨second, rfl⟩))

theorem isSome_text?_iff {s : Server} {uri : Bytes} : (s.text? uri).isSome = true ↔ ∃ d ∈ s.documents, d.uri = uri := by
  rw [text?, ← Option.isSome_map, ← document?, Option.isSome_iff_exists]
  exact exists_congr fun d => document?_eq_some_iff

/-! ## What each notice does to both tables -/

/-- Both tables are as they were. -/
structure SameDocuments (s s' : Server) : Prop where
  texts : s'.texts = s.texts
  versions : s'.versions = s.versions

namespace SameDocuments

variable {s s' s'' : Server}

theorem refl (s : Server) : SameDocuments s s := ⟨rfl, rfl⟩

theorem trans (first : SameDocuments s s') (second : SameDocuments s' s'') : SameDocuments s s'' :=
  ⟨second.texts.trans first.texts, second.versions.trans first.versions⟩

theorem text? (same : SameDocuments s s') (uri : Bytes) : s'.text? uri = s.text? uri := by
  rw [Server.text?, same.texts, Server.text?]

theorem version? (same : SameDocuments s s') (uri : Bytes) : s'.version? uri = s.version? uri := by
  rw [Server.version?, same.versions, Server.version?]

theorem documents (same : SameDocuments s s') : s'.documents = s.documents := by
  simp only [Server.documents, versionOf, same.texts, same.versions]

end SameDocuments

/-- A document is held with its text and its version. -/
def putDocument (s : Server) (d : OpenDocument) : Server :=
  { s with texts := s.texts.set d.uri d.text, versions := s.versions.set d.uri d.version }

/-- A document has a version exactly if it has a text. -/
def Keyed (s : Server) : Prop := ∀ uri, (s.version? uri).isSome = (s.text? uri).isSome

namespace Keyed

variable {s s' : Server}

theorem same (keyed : s.Keyed) (same : SameDocuments s s') : s'.Keyed := by
  intro uri
  rw [same.version?, same.text?]
  exact keyed uri

theorem putDocument (keyed : s.Keyed) (d : OpenDocument) : (s.putDocument d).Keyed := by
  intro uri
  simp only [version?, text?, Server.putDocument, Table.get?_set]
  split
  · rfl
  · exact keyed uri

theorem openDocument (keyed : s.Keyed) (host : Host) (d : Params.Opened) : (s.openDocument host d).Keyed := by
  unfold Server.openDocument
  dsimp only
  split
  · exact keyed
  · exact keyed.putDocument ⟨_, d.text, d.version⟩

theorem changeDocument (keyed : s.Keyed) (host : Host) (d : Params.Changed) : (s.changeDocument host d).Keyed := by
  unfold Server.changeDocument
  dsimp only
  split
  · exact keyed
  · exact keyed.putDocument ⟨_, _, d.version⟩

theorem saveDocument (keyed : s.Keyed) (host : Host) (d : Params.Saved) : (s.saveDocument host d).Keyed := by
  unfold Server.saveDocument
  dsimp only
  split
  · exact keyed
  · split
    · split
      · exact keyed
      · exact keyed.putDocument ⟨_, _, _⟩
    · exact keyed

theorem closeDocument (keyed : s.Keyed) (host : Host) (given : Bytes) : (s.closeDocument host given).Keyed := by
  unfold Server.closeDocument
  dsimp only
  split
  · exact keyed
  · generalize Uri.canonical host.cwd given = addr
    have erased (uri : Bytes) : ((s.versions.erase addr).get? uri).isSome = ((s.texts.erase addr).get? uri).isSome := by
      rw [Table.get?_erase, Table.get?_erase]
      split
      · rfl
      · exact keyed uri
    split
    · exact erased
    · exact erased

theorem notice (keyed : s.Keyed) (host : Host) (n : Notice) : (s.notice host n).Keyed := by
  cases n with
  | opened d => exact keyed.openDocument host d
  | changed d => exact keyed.changeDocument host d
  | saved d => exact keyed.saveDocument host d
  | closed given => exact keyed.closeDocument host given

end Keyed

/-! ## Messages that carry notices -/

theorem fromUTF8?_utf8 (s : String) : String.fromUTF8? (ByteArray.mk (utf8 s).toArray) = some s := by
  have bytes : ByteArray.mk (utf8 s).toArray = s.toUTF8 := by
    simp [utf8]
  rw [bytes]
  simpa [String.fromUTF8?, String.fromUTF8] using s.isValidUTF8

theorem notified_eq {α : Type} {s : Server} {m : Message} {decode : α → Json → Option α} {zero params : α}
    (readable : m.required decode zero = some params) (handle : α → Server) :
    s.notified m decode zero handle = (handle params, none) := by
  simp only [notified, readable]

theorem dispatch_notice {m : Message} {n : Notice} (carried : Notice.of? m = some n) (s : Server)
    (host : Host) : s.dispatch host m = (s.notice host n, none) := by
  unfold Notice.of? at carried
  split_ifs at carried with opened changed saved closed
  · obtain ⟨d, readable, rfl⟩ := Option.map_eq_some_iff.mp carried
    simp only [dispatch, opened, fromUTF8?_utf8]
    exact notified_eq readable _
  · obtain ⟨d, readable, rfl⟩ := Option.map_eq_some_iff.mp carried
    simp only [dispatch, changed, fromUTF8?_utf8]
    exact notified_eq readable _
  · obtain ⟨d, readable, rfl⟩ := Option.map_eq_some_iff.mp carried
    simp only [dispatch, saved, fromUTF8?_utf8]
    exact notified_eq readable _
  · obtain ⟨uri, readable, rfl⟩ := Option.map_eq_some_iff.mp carried
    simp only [dispatch, closed, fromUTF8?_utf8]
    exact notified_eq readable _

/-- A message that carries a notice is always handled, and gives the text of every document the notice's
effect. -/
theorem handle_notice {m : Message} {n : Notice} (carried : Notice.of? m = some n) (s : Server)
    (host : Host) :
    (s.handle host m).2 = none ∧ ∀ uri, (s.handle host m).1.text? uri =
      if n.concerns host.cwd uri then n.effect (s.text? uri) else s.text? uri := by
  unfold handle
  simp only [dispatch_notice carried]
  refine ⟨trivial, fun uri => ?_⟩
  -- The tracer is not part of what a text depends on.
  exact text?_notice { s with tracer := (s.tracer.start .request m.method 0).2 } host n uri

/-- Messages that carry notices are all handled, and the text of a document comes from those that concern it. -/
theorem handleAll_notices (host : Host) {ms : List Message} {ns : List Notice}
    (carried : ms.map Notice.of? = ns.map some) (s : Server) :
    (s.handleAll host ms).2 = none ∧ ∀ uri, (s.handleAll host ms).1.text? uri =
      (ns.filter (Notice.concerns host.cwd uri)).foldl (fun held n => n.effect held) (s.text? uri) := by
  induction ms generalizing s ns with
  | nil =>
      obtain rfl : ns = [] := by simpa using carried.symm
      exact ⟨rfl, fun uri => rfl⟩
  | cons m ms ih =>
      cases ns with
      | nil => simp at carried
      | cons n ns =>
          rw [List.map_cons, List.map_cons, List.cons.injEq] at carried
          obtain ⟨goesOn, texts⟩ := handle_notice carried.1 s host
          have rest : s.handleAll host (m :: ms) = (s.handle host m).1.handleAll host ms := by
            rw [handleAll]
            split
            · rename_i eq
              rw [eq]
            · rename_i eq
              simp [eq] at goesOn
          obtain ⟨ended, after⟩ := ih carried.2 (s.handle host m).1
          rw [rest]
          refine ⟨ended, fun uri => ?_⟩
          rw [after uri, texts uri, List.filter_cons]
          split <;> rfl

end Server

end Colloquy
