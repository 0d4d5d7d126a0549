import Colloquy.Server.Wire

/-! # Messages

Requests and notifications from an editor, and the answers to them. A message is a JSON object with a
method; a request has an identifier, which its answer repeats as it was written.
-/

namespace Colloquy

/-- A message from an editor. -/
structure Message where
  id : Option Json := none
  method : Bytes := []
  params : Option Json := none

namespace Message

/-- Read a text that is not kept. -/
def checkText {α : Type} (x : α) (j : Json) : Option α := (Json.decodeText [] j).map fun _ => x

/-- Read an error object that is not kept. -/
def checkError {α : Type} (x : α) (j : Json) : Option α :=
  (Json.decodeRecord [("code", fun u v => (Json.decodeInt 0 v).map fun _ => u), ("message", checkText)] () j).map
    fun _ => x

/-- Read a message. Parts that only answers have are checked and dropped. -/
def decode : Message → Json → Option Message :=
  Json.decodeRecord [
    ("jsonrpc", checkText),
    ("id", fun m j => some { m with id := some j }),
    ("method", fun m j => (Json.decodeText m.method j).map fun method => { m with method }),
    ("params", fun m j => some { m with params := some j }),
    ("error", checkError)]

def ofBytes? (payload : Bytes) : Option Message := (Json.parse? payload).bind (decode {})

/-- The parameters, read by a decoder that starts from `zero`; missing ones leave it. -/
def paramsOr {α : Type} (m : Message) (decode : α → Json → Option α) (zero : α) : Option α :=
  match m.params with
  | some j => decode zero j
  | none => some zero

/-- The parameters, which must be there. -/
def required {α : Type} (m : Message) (decode : α → Json → Option α) (zero : α) : Option α :=
  m.params.bind (decode zero)

def response (m : Message) (result : Json) : Json :=
  Json.obj [("id", m.id.getD .null), ("jsonrpc", Json.str "2.0"), ("result", result)]

def refusal (m : Message) (code : Int) (text : String) : Json :=
  Json.obj [("error", Json.obj [("code", .ofInt code), ("message", Json.str text)]), ("id", m.id.getD .null),
    ("jsonrpc", Json.str "2.0")]

def invalidParams (m : Message) : Json := m.refusal (-32602) "invalid params"

/-- The refusal of a method that is not known. -/
def methodNotFound (m : Message) : Json := m.refusal (-32601) "method not found"

def notification (method : String) (params : Json) : Json :=
  Json.obj [("jsonrpc", Json.str "2.0"), ("method", Json.str method), ("params", params)]

end Message

/-! ## Parameters -/

namespace Params

def uri : Bytes → Json → Option Bytes := Json.decodeRecord [("uri", Json.decodeText)]

/-- A place in a document. -/
structure Place where
  uri : Bytes := []
  position : Position := Position.zero

def Place.decode : Place → Json → Option Place :=
  Json.decodeRecord [
    ("textDocument", fun p j => (Params.uri p.uri j).map fun uri => { p with uri }),
    ("position", fun p j => (p.position.decode j).map fun position => { p with position })]

/-- What an opened document holds. -/
structure Opened where
  uri : Bytes := []
  version : Int64 := 0
  text : Bytes := []

def Opened.decodeItem : Opened → Json → Option Opened :=
  Json.decodeRecord [
    ("uri", fun d j => (Json.decodeText d.uri j).map fun uri => { d with uri }),
    ("languageId", Message.checkText),
    ("version", fun d j => (Json.decodeInt64 d.version j).map fun version => { d with version }),
    ("text", fun d j => (Json.decodeText d.text j).map fun text => { d with text })]

def Opened.decode : Opened → Json → Option Opened := Json.decodeRecord [("textDocument", decodeItem)]

/-- What has changed in a document. -/
structure Changed where
  uri : Bytes := []
  version : Int64 := 0
  changes : Json.Slots Change := {}

def Changed.decodeItem : Changed → Json → Option Changed :=
  Json.decodeRecord [
    ("uri", fun d j => (Json.decodeText d.uri j).map fun uri => { d with uri }),
    ("version", fun d j => (Json.decodeInt64 d.version j).map fun version => { d with version })]

def Changed.decode : Changed → Json → Option Changed :=
  Json.decodeRecord [
    ("textDocument", decodeItem),
    ("contentChanges", fun d j =>
      (Json.decodeArray Change.decode {} d.changes j).map fun changes => { d with changes })]

/-- Which document was saved, and with what text if that is told. -/
structure Saved where
  uri : Bytes := []
  text : Option Bytes := none

def Saved.decode : Saved → Json → Option Saved :=
  Json.decodeRecord [
    ("textDocument", fun d j => (Params.uri d.uri j).map fun uri => { d with uri }),
    ("text", fun d j => (Json.decodeOption Json.decodeText [] d.text j).map fun text => { d with text })]

def closed : Bytes → Json → Option Bytes := Json.decodeRecord [("textDocument", uri)]

/-- Where actions are asked for: in which range of a document, for which findings, and of which kinds. -/
structure ActionContext where
  uri : Bytes := []
  range : Range := Range.zero
  findings : Json.Slots Wire.Finding := {}
  only : Json.Slots Bytes := {}

def ActionContext.decodeContext : ActionContext → Json → Option ActionContext :=
  Json.decodeRecord [
    ("diagnostics", fun c j =>
      (Json.decodeArray Wire.Finding.decode {} c.findings j).map fun findings => { c with findings }),
    ("only", fun c j => (Json.decodeArray Json.decodeText [] c.only j).map fun only => { c with only })]

def ActionContext.decode : ActionContext → Json → Option ActionContext :=
  Json.decodeRecord [
    ("textDocument", fun c j => (Params.uri c.uri j).map fun uri => { c with uri }),
    ("range", fun c j => (c.range.decode j).map fun range => { c with range }),
    ("context", decodeContext)]

def query : Bytes → Json → Option Bytes := Json.decodeRecord [("query", Json.decodeText)]

def settings : Option Json → Json → Option (Option Json) :=
  Json.decodeRecord [("settings", fun _ j => some (some j))]

/-- What an editor says about itself: its folders, its root by address and by path, and settings. -/
structure Initial where
  folders : Json.Slots Bytes := {}
  rootUri : Bytes := []
  rootPath : Bytes := []
  options : Option Json := none

def Initial.decodeFolder : Bytes → Json → Option Bytes :=
  Json.decodeRecord [("uri", Json.decodeText), ("name", Message.checkText)]

def Initial.decode : Initial → Json → Option Initial :=
  Json.decodeRecord [
    ("rootUri", fun i j => (Json.decodeText i.rootUri j).map fun rootUri => { i with rootUri }),
    ("rootPath", fun i j => (Json.decodeText i.rootPath j).map fun rootPath => { i with rootPath }),
    ("workspaceFolders", fun i j =>
      (Json.decodeArray decodeFolder [] i.folders j).map fun folders => { i with folders }),
    ("initializationOptions", fun i j => some { i with options := some j })]

end Params

end Colloquy
