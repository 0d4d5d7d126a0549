import Colloquy.Check.Basic
import Colloquy.Outline.Cache
import Colloquy.Preview.Link
import Colloquy.Server.Message
import Colloquy.Server.Overlay
import Colloquy.Server.Uri
import Colloquy.Table
import Colloquy.Trace.Tracer

/-! # The state of the language server

What the server remembers between messages: the texts of the open documents and their versions, what it
has published, the settings and what it has learnt about models. Messages to the editor and lines of the
log wait here until they are sent.
-/

namespace Colloquy

/-- A document as the editor shows it. -/
structure OpenDocument where
  uri : Bytes
  text : Bytes
  version : Int64

/-- The language server. -/
structure Server where
  settings : Settings
  resolver : Resolver
  /-- The model lists; without them models are not checked. -/
  registry : Option Registry := none
  /-- Where keys of providers are looked up. -/
  keys : Environment := []
  tracer : Trace.Tracer := Trace.Tracer.off
  /-- The texts of the open documents, by address. -/
  texts : Table Bytes := .empty
  /-- The versions of the open documents, by address. Every message that opens, changes or closes a document
      writes both tables. -/
  versions : Table Int64 := .empty
  /-- The documents with published findings. -/
  published : List Bytes := []
  /-- The folders of the workspace. -/
  roots : List Bytes := []
  shutdownRequested : Bool := false
  /-- How often checking was scheduled; only the latest schedule counts. A counter of 64 bits is at the same number
      as long as there were fewer than 2 ^ 64 schedules. -/
  schedule : Nat := 0
  cache : Cache := Cache.empty 0
  /-- The providers whose lists are being fetched for this server. -/
  fetching : List Bytes := []
  /-- Messages to the editor, latest first. -/
  sent : List Json := []
  /-- Lines of the log, latest first. -/
  log : List Bytes := []

/-- Why the server stops. -/
inductive ServerStop
  /-- The editor asked for it in order. -/
  | exit
  /-- The editor asked for it without announcing it. -/
  | exitWithoutShutdown
  /-- A notification about a document could not be read. -/
  | unreadable (isMissing : Bool)
  deriving Repr, DecidableEq

def ServerStop.message : ServerStop → Bytes
  | .exit => utf8 "lsp exit"
  | .exitWithoutShutdown => utf8 "lsp exit without shutdown"
  | .unreadable true => utf8 "unexpected end of JSON input"
  | .unreadable false => utf8 "json: cannot unmarshal params"

namespace Server

/-- A server at its start. A configuration file in the settings goes before the resolver's own. -/
def start (settings : Settings) (resolver : Resolver) : Server :=
  { settings
    resolver := if settings.systemConfig.isEmpty then resolver
      else { resolver with systemPath := settings.systemConfig } }

def send (s : Server) (message : Json) : Server := { s with sent := message :: s.sent }

def respond (s : Server) (m : Message) (result : Json) : Server := s.send (m.response result)

def logLine (s : Server) (line : Bytes) : Server := { s with log := (utf8 "lsp: " ++ line) :: s.log }

/-- The messages and log lines that wait, and the server without them. -/
def drain (s : Server) : List Json × List Bytes × Server :=
  (s.sent.reverse, s.log.reverse, { s with sent := [], log := [] })

/-- The version of a document; zero when none is known. -/
def versionOf (s : Server) (uri : Bytes) : Int64 := (s.versions.get? uri).getD 0

/-- The document that is open under an address, with the version that is known for it. -/
def document? (s : Server) (uri : Bytes) : Option OpenDocument :=
  (s.texts.get? uri).map fun text => ⟨uri, text, s.versionOf uri⟩

/-- The open documents: whatever has a text. -/
def documents (s : Server) : List OpenDocument := s.texts.entries.map fun e => ⟨e.1, e.2, s.versionOf e.1⟩

def sortedDocuments (s : Server) : List OpenDocument := s.documents.mergeSort fun a b => Bytes.le a.uri b.uri

def scheduleCheck (s : Server) : Server := { s with schedule := s.schedule + 1 }

def applySettings (s : Server) (sent : Option Json) : Server :=
  { s with settings := s.settings.applyLive sent }

def previewLimits (s : Server) : PreviewLimits := ⟨s.settings.previewBytes, s.settings.globLimit⟩

/-- Publish findings for a document; an empty list clears them. -/
def publish (s : Server) (uri : Bytes) (version : Option Int64) (findings : List Wire.Finding) : Server :=
  s.send (Message.notification "textDocument/publishDiagnostics"
    (Json.obj ([("uri", .ofText uri)] ++ Wire.optional "version" (fun v => Json.ofInt v.toInt) version ++
      [("diagnostics", .array (findings.map Wire.Finding.toJson))])))

/-- Carry out a computation for a request. One that breaks down is noted in the log and gives nothing. -/
def traced {α : Type} (s : Server) (name : String) (step : Server → Except Bytes α × Server) : Option α × Server :=
  let (span, tracer) := s.tracer.start .feature (utf8 name) 0
  match step { s with tracer } with
  | (.ok result, s) => (some result, { s with tracer := s.tracer.finish span [] })
  | (.error reason, s) =>
    let s := s.logLine (utf8 name ++ utf8 " failed: " ++ reason)
    (none, { s with tracer := s.tracer.finish span (utf8 "panic") })

end Server

end Colloquy
