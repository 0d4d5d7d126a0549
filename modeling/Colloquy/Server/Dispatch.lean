import Colloquy.Release
import Colloquy.Server.Action
import Colloquy.Server.Definition
import Colloquy.Server.Findings
import Colloquy.Server.Frame
import Colloquy.Server.Hover
import Colloquy.Server.Symbol

/-! # Handling messages

What the server does for each method. A request gets an answer; a notification changes what the server
knows. Messages without a method, and notifications of unknown methods, are ignored.
-/

namespace Colloquy.Server

def capabilities : Json :=
  Json.obj [
    ("capabilities", Json.obj [
      ("textDocumentSync", Json.obj [("openClose", .bool true), ("change", .ofNat 2),
        ("save", Json.obj [("includeText", .bool true)])]),
      ("hoverProvider", .bool true),
      ("definitionProvider", .bool true),
      ("codeActionProvider", Json.obj [
        ("codeActionKinds", .array [.ofText DocumentView.quickFix, .ofText DocumentView.inlining]),
        ("resolveProvider", .bool true)]),
      ("workspaceSymbolProvider", .bool true)]),
    ("serverInfo", Json.obj [("name", Json.str "lectic"), ("version", .ofText Release.current.version)])]

/-- What is computed for requests. A computation that breaks down tells why. -/
structure Features where
  hover : PreviewLimits → DocumentView → Position → Except Bytes (Option Wire.Hover) :=
    fun limits v p => .ok (v.hover? limits p)
  definition : DocumentView → Position → Except Bytes (Option Wire.Location) := fun v p => .ok (v.definition? p)
  actions : Environment → DocumentView → Params.ActionContext → Except Bytes (Option (List Wire.Action)) :=
    fun keys v c => .ok (v.actions? keys c)
  /-- The edit for the directive that lies exactly between two offsets. -/
  expansion : DocumentView → Int → Int → Except Bytes (Option (Except ExpansionFault Wire.WorkspaceEdit)) :=
    fun v start stop => .ok (v.expansion? start stop)
  symbols : Host → Resolver → List Bytes → Bytes → Except Bytes (List Wire.Symbol) :=
    fun host resolver roots query => .ok (Symbols.find host resolver roots query)

/-- The folders of a workspace: those announced, or else the root. -/
def rootsOf (host : Host) (i : Params.Initial) : List Bytes :=
  let paths (uris : List Bytes) : List Bytes := uris.filterMap (Uri.path? host.cwd)
  let folders := paths i.folders.items
  if !folders.isEmpty then folders.eraseDups
  else match paths [i.rootUri] with
    | [] => if i.rootPath.isEmpty then [] else [host.abs i.rootPath]
    | roots => roots

def greet (s : Server) (host : Host) (m : Message) : Server :=
  match m.paramsOr Params.Initial.decode {} with
  | none => s.send m.invalidParams
  | some i => ({ s with roots := rootsOf host i }.applySettings i.options).respond m capabilities

def shutdown (s : Server) (m : Message) : Server :=
  { s with shutdownRequested := true }.clearPublished.respond m .null

def changeSettings (s : Server) (m : Message) : Server :=
  match m.params.bind (Params.settings none) with
  | none => s
  | some sent =>
    let next := s.applySettings sent
    if next.settings == s.settings then next else next.scheduleCheck

def openDocument (s : Server) (host : Host) (d : Params.Opened) : Server :=
  let uri := Uri.canonical host.cwd d.uri
  if uri.isEmpty then s
  else
    { s with
      texts := s.texts.set uri d.text
      versions := s.versions.set uri d.version }.scheduleCheck

/-- A document is changed. One that is not open is taken to be empty. -/
def changeDocument (s : Server) (host : Host) (d : Params.Changed) : Server :=
  let uri := Uri.canonical host.cwd d.uri
  if uri.isEmpty then s
  else
    let text := Change.applyAll ((s.texts.get? uri).getD []) d.changes.items
    { s with
      texts := s.texts.set uri text
      versions := s.versions.set uri d.version }.scheduleCheck

/-- A document is saved. Text that differs from what is known is a version of its own. -/
def saveDocument (s : Server) (host : Host) (d : Params.Saved) : Server :=
  let uri := Uri.canonical host.cwd d.uri
  if uri.isEmpty then s
  else
    let s := match s.texts.get? uri, d.text with
      | some known, some text =>
        if known == text then s
        else
          { s with
            texts := s.texts.set uri text
            versions := s.versions.set uri (s.versionOf uri + 1) }
      | _, _ => s
    s.scheduleCheck

def closeDocument (s : Server) (host : Host) (given : Bytes) : Server :=
  let uri := Uri.canonical host.cwd given
  if uri.isEmpty then s
  else
    let wasPublished := s.published.any (· == uri)
    let s := { s with
      texts := s.texts.erase uri
      versions := s.versions.erase uri
      published := s.published.filter (· != uri)
      cache := s.cache.forget uri }
    if wasPublished then s.publish uri none [] else s

/-- A notification about a document, which must be readable. -/
def notified {α : Type} (s : Server) (m : Message) (decode : α → Json → Option α) (zero : α)
    (handle : α → Server) : Server × Option ServerStop :=
  match m.required decode zero with
  | some params => (handle params, none)
  | none => (s, some (.unreadable m.params.isNone))

/-- A request about a document: the answer is null when it is not open or cannot be computed. -/
def viewed {α : Type} (s : Server) (host : Host) (m : Message) (decode : α → Json → Option α) (zero : α)
    (uri : α → Bytes) (name : String) (answer : DocumentView → α → Except Bytes Json) : Server :=
  match m.paramsOr decode zero with
  | none => s.send m.invalidParams
  | some params =>
    match s.view? host (uri params) with
    | none => s.respond m .null
    | some (v, s) =>
      let (result, s) := s.traced name fun s => (answer v params, s)
      s.respond m (result.getD .null)

def orNull {α : Type} (toJson : α → Json) : Option α → Json
  | some x => toJson x
  | none => .null

/-- Symbols of the workspace; the answer is null when there are none. -/
def symbols (s : Server) (host : Host) (m : Message) (f : Features) : Server :=
  match m.paramsOr Params.query [] with
  | none => s.send m.invalidParams
  | some query =>
    let (found, s) := s.traced "workspace/symbol" fun s => (f.symbols host s.resolver s.roots query, s)
    let found := found.getD []
    s.respond m (if found.isEmpty then .null else .array (found.map Wire.Symbol.toJson))

/-- Complete an action; one that cannot be completed stays as it is. -/
def completeAction (s : Server) (host : Host) (m : Message) (f : Features) : Server :=
  match m.paramsOr Wire.Action.decode {} with
  | none => s.send m.invalidParams
  | some a =>
    let (completed, s) := s.traced "codeAction/resolve" fun s => s.resolveAction host a f.expansion
    s.respond m (completed.getD a).toJson

def dispatch (s : Server) (host : Host) (m : Message) (f : Features := {}) : Server × Option ServerStop :=
  match String.fromUTF8? (ByteArray.mk m.method.toArray) with
  | some "initialize" => (s.greet host m, none)
  | some "initialized" => (s, none)
  | some "shutdown" => (s.shutdown m, none)
  | some "exit" => (s, some (if s.shutdownRequested then .exit else .exitWithoutShutdown))
  | some "workspace/didChangeConfiguration" => (s.changeSettings m, none)
  | some "workspace/symbol" => (s.symbols host m f, none)
  | some "textDocument/didOpen" => s.notified m Params.Opened.decode {} (s.openDocument host)
  | some "textDocument/didChange" => s.notified m Params.Changed.decode {} (s.changeDocument host)
  | some "textDocument/didSave" => s.notified m Params.Saved.decode {} (s.saveDocument host)
  | some "textDocument/didClose" => s.notified m Params.closed [] (s.closeDocument host)
  | some "textDocument/hover" =>
    (s.viewed host m Params.Place.decode {} Params.Place.uri "hover" fun v p =>
      (f.hover s.previewLimits v p.position).map (orNull Wire.Hover.toJson), none)
  | some "textDocument/definition" =>
    (s.viewed host m Params.Place.decode {} Params.Place.uri "definition" fun v p =>
      (f.definition v p.position).map (orNull Wire.Location.toJson), none)
  | some "textDocument/codeAction" =>
    (s.viewed host m Params.ActionContext.decode {} Params.ActionContext.uri "codeAction" fun v c =>
      (f.actions s.keys v c).map (orNull fun actions => .array (actions.map Wire.Action.toJson)), none)
  | some "codeAction/resolve" => (s.completeAction host m f, none)
  | _ => (if m.id.isSome then s.send m.methodNotFound else s, none)

def handle (s : Server) (host : Host) (m : Message) (f : Features := {}) : Server × Option ServerStop :=
  let (span, tracer) := s.tracer.start .request m.method 0
  let (s, stop) := dispatch { s with tracer } host m f
  let detail := (stop.map ServerStop.message).getD []
  ({ s with tracer := s.tracer.finish span detail }, stop)

/-- Handle the payload of a frame. One that is no message is only noted in the log. -/
def receive (s : Server) (host : Host) (payload : Bytes) (f : Features := {}) : Server × Option ServerStop :=
  match Message.ofBytes? payload with
  | none => (s.logLine (utf8 "failed to parse message"), none)
  | some m => if m.method.isEmpty then (s, none) else s.handle host m f

/-- How a session ends. -/
inductive End
  | stopped (stop : ServerStop)
  | stream (stop : Frame.Stop)
  deriving Repr, DecidableEq

/-- Handle the messages of a stream until one stops the server or no more can be read. -/
def run (host : Host) (f : Features) : (fuel : Nat) → Server → Bytes → Server × End
  | 0, s, _ => (s, .stream .finished)
  | fuel + 1, s, t =>
    match Frame.read t with
    | .error stop => (s, .stream stop)
    | .ok (payload, rest) =>
      match s.receive host payload f with
      | (s, some stop) => (s, .stopped stop)
      | (s, none) => run host f fuel s rest

/-- Handle a whole stream; every frame has a byte at least. -/
def runAll (s : Server) (host : Host) (stream : Bytes) (f : Features := {}) : Server × End :=
  run host f (stream.length + 1) s stream

end Colloquy.Server
