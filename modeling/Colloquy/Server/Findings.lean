import Colloquy.Server.View

/-! # Publishing findings

The server checks all open documents some time after the last change, and tells the editor what it
found. A schedule that is no longer the latest is dropped. A check goes through the documents that were
open when it began; for each it first computes what there is to find, and then publishes it if the
document is still the same. Messages may be handled between any two of these halves.
-/

namespace Colloquy

def Wire.Finding.ofDiagnostic (uri : Bytes) (lines : LineIndex) (d : Diagnostic) : Wire.Finding where
  range := lines.range d.span
  severity := d.severity.editorNumber
  code := d.code.id
  source := utf8 "lectic"
  message := d.message
  related := ⟨d.notes.map fun n => ⟨⟨uri, lines.range n.span⟩, n.message⟩, []⟩

/-- A check of all documents under way. -/
structure Sweep where
  schedule : Nat
  /-- The documents about which nothing is published yet. -/
  left : List OpenDocument
  /-- What was found in the first of these. -/
  found : Option (List Wire.Finding) := none
  ended : Bool := false
  span : Trace.Span

namespace Server

def ensureModels (s : Server) (providers : List Bytes) : Server :=
  providers.foldl (fun s provider =>
    match s.registry with
    | none => s
    | some registry =>
      let (started, registry) := registry.ensure provider
      let s := { s with registry := some registry }
      if started then { s with fetching := provider :: s.fetching } else s) s

def diagnose (s : Server) (host : Host) (d : OpenDocument) : List Wire.Finding × Server :=
  let (v, s) := s.viewOf host d
  let subject := v.subject
  let limit := s.settings.maxDiagnostics.toInt
  let found := Check.document limit subject
  let (found, s) := match s.registry with
    | none => (found, s)
    | some registry =>
      (found ++ Check.models limit registry subject,
        if s.settings.fetchModels then s.ensureModels (Check.modelProviders subject) else s)
  (found.map (Wire.Finding.ofDiagnostic d.uri v.lines), s)

/-- Publish what was found in a document, and remember that something is published about it. -/
def announce (s : Server) (d : OpenDocument) (findings : List Wire.Finding) : Server :=
  { s with published := if s.published.any (· == d.uri) then s.published else d.uri :: s.published }.publish
    d.uri (some d.version) findings

/-- The document still has the version and the text that it had. A text that is not there counts as empty. -/
def isUnchanged (s : Server) (d : OpenDocument) : Bool :=
  (s.versions.get? d.uri).any (· == d.version) && (s.texts.get? d.uri).getD [] == d.text

end Server

namespace Sweep

def start (s : Server) : Server × Sweep :=
  let documents := s.sortedDocuments
  let (span, tracer) := s.tracer.start .feature (utf8 "diagnostics") 0
  let span := span.withExtra (utf8 "docs") (Bytes.ofNat documents.length)
  ({ s with tracer }, { schedule := s.schedule, left := documents, span })

def stop (w : Sweep) (s : Server) : Server × Sweep :=
  ({ s with tracer := s.tracer.finish w.span [] }, { w with ended := true })

/-- The next half. A sweep ends when no document is left, when it is no longer the latest, and when the document that
    it is about to publish has changed. -/
def advance (host : Host) (s : Server) (w : Sweep) : Server × Sweep :=
  if w.ended then (s, w)
  else match w.left, w.found with
    | [], _ => w.stop s
    | d :: _, none =>
      if w.schedule != s.schedule then w.stop s
      else
        let (findings, s) := s.diagnose host d
        (s, { w with found := some findings })
    | d :: rest, some findings =>
      if w.schedule != s.schedule || !s.isUnchanged d then w.stop s
      else (s.announce d findings, { w with left := rest, found := none })

/-- Both halves for each of some documents, and the end. -/
def through (host : Host) : List OpenDocument → Server × Sweep → Server × Sweep
  | [], (s, w) => w.advance host s
  | _ :: rest, (s, w) =>
    let (s, w) := w.advance host s
    through host rest (w.advance host s)

end Sweep

namespace Server

/-- Carry out a schedule at one go, if it is the latest. -/
def runSchedule (s : Server) (host : Host) (schedule : Nat) : Server :=
  if schedule == 0 || schedule != s.schedule then s
  else
    let (s, w) := Sweep.start s
    (Sweep.through host w.left (s, w)).1

def clearPublished (s : Server) : Server :=
  (Bytes.sorted s.published).foldl (fun s uri => s.publish uri none []) { s with published := [] }

/-- A list that was being fetched has arrived, or has failed to. If there are models in it, the documents
    are to be checked again. -/
def receiveModels (s : Server) (provider : Bytes) (result : Except Bytes (List Bytes)) : Server :=
  match s.registry with
  | none => s
  | some registry =>
    let registry := registry.finish provider result
    let s := { s with registry := some registry, fetching := s.fetching.filter (· != provider) }
    if registry.state provider == .loaded then s.scheduleCheck else s

end Server

end Colloquy
