import Colloquy.Server.Change

/-! # What travels

The records that the server and an editor exchange, with how each is read from JSON and written to it.
Optional parts that are empty are not written.
-/

namespace Colloquy.Wire

/-- Members for a text that is left out when empty. -/
def optionalText (name : String) (t : Bytes) : List (String × Json) :=
  if t.isEmpty then [] else [(name, .ofText t)]

/-- Members for a list that is left out when empty. -/
def optionalList {α : Type} (name : String) (toJson : α → Json) (xs : List α) : List (String × Json) :=
  if xs.isEmpty then [] else [(name, .array (xs.map toJson))]

/-- Members for a value that may be missing. -/
def optional {α : Type} (name : String) (toJson : α → Json) : Option α → List (String × Json)
  | some x => [(name, toJson x)]
  | none => []

/-- A range in a document. -/
structure Location where
  uri : Bytes := []
  range : Range := Range.zero
  deriving Repr, DecidableEq

namespace Location

def decode : Location → Json → Option Location :=
  Json.decodeRecord [
    ("uri", fun l j => (Json.decodeText l.uri j).map fun uri => { l with uri }),
    ("range", fun l j => (l.range.decode j).map fun range => { l with range })]

def toJson (l : Location) : Json := Json.obj [("uri", .ofText l.uri), ("range", l.range.toJson)]

end Location

/-- A message about another place that belongs to a finding. -/
structure Related where
  location : Location := {}
  message : Bytes := []
  deriving Repr, DecidableEq

namespace Related

def decode : Related → Json → Option Related :=
  Json.decodeRecord [
    ("location", fun r j => (r.location.decode j).map fun location => { r with location }),
    ("message", fun r j => (Json.decodeText r.message j).map fun message => { r with message })]

def toJson (r : Related) : Json := Json.obj [("location", r.location.toJson), ("message", .ofText r.message)]

end Related

/-- A finding as editors show it. -/
structure Finding where
  range : Range := Range.zero
  severity : Int := 0
  code : Bytes := []
  source : Bytes := []
  message : Bytes := []
  related : Json.Slots Related := {}
  deriving Repr, DecidableEq

namespace Finding

def decode : Finding → Json → Option Finding :=
  Json.decodeRecord [
    ("range", fun f j => (f.range.decode j).map fun range => { f with range }),
    ("severity", fun f j => (Json.decodeInt f.severity j).map fun severity => { f with severity }),
    ("code", fun f j => (Json.decodeText f.code j).map fun code => { f with code }),
    ("source", fun f j => (Json.decodeText f.source j).map fun source => { f with source }),
    ("message", fun f j => (Json.decodeText f.message j).map fun message => { f with message }),
    ("relatedInformation", fun f j =>
      (Json.decodeArray Related.decode {} f.related j).map fun related => { f with related })]

def toJson (f : Finding) : Json :=
  Json.obj ([("range", f.range.toJson)] ++ (if f.severity == 0 then [] else [("severity", .ofInt f.severity)]) ++
    optionalText "code" f.code ++ optionalText "source" f.source ++ [("message", .ofText f.message)] ++
    optionalList "relatedInformation" Related.toJson f.related.items)

end Finding

/-- A range of a document and its new text. -/
structure TextEdit where
  range : Range := Range.zero
  newText : Bytes := []
  deriving Repr, DecidableEq

namespace TextEdit

def decode : TextEdit → Json → Option TextEdit :=
  Json.decodeRecord [
    ("range", fun e j => (e.range.decode j).map fun range => { e with range }),
    ("newText", fun e j => (Json.decodeText e.newText j).map fun newText => { e with newText })]

def toJson (e : TextEdit) : Json := Json.obj [("range", e.range.toJson), ("newText", .ofText e.newText)]

end TextEdit

/-- Edits by document; documents are unique. Both the whole and the edits of a document may be null. -/
structure WorkspaceEdit where
  changes : Option (List (Bytes × Option (List TextEdit))) := none
  deriving Repr, DecidableEq

namespace WorkspaceEdit

def single (uri : Bytes) (edit : TextEdit) : WorkspaceEdit := ⟨some [(uri, some [edit])]⟩

def put (changes : List (Bytes × Option (List TextEdit))) (uri : Bytes) (edits : Option (List TextEdit)) :
    List (Bytes × Option (List TextEdit)) :=
  (changes.filter fun c => c.1 != uri) ++ [(uri, edits)]

def decodeEdits : Json → Option (Option (List TextEdit))
  | .null => some none
  | j => (Json.decodeArray TextEdit.decode {} {} j).map fun edits => some edits.items

def decodeChanges (current : Option (List (Bytes × Option (List TextEdit)))) :
    Json → Option (Option (List (Bytes × Option (List TextEdit))))
  | .null => some none
  | .object members => do
    let changes ← members.foldlM (fun acc (m : Bytes × Json) => do
      return put acc (Json.unescape m.1) (← decodeEdits m.2)) (current.getD [])
    return some changes
  | _ => none

def decode : WorkspaceEdit → Json → Option WorkspaceEdit :=
  Json.decodeRecord [("changes", fun e j => (decodeChanges e.changes j).map fun changes => { e with changes })]

/-- The edits as JSON, documents in byte order. -/
def toJson (e : WorkspaceEdit) : Json :=
  let edits : Option (List TextEdit) → Json
    | some es => .array (es.map TextEdit.toJson)
    | none => .null
  Json.obj [("changes", match e.changes with
    | some changes =>
      .object ((changes.mergeSort fun a b => Bytes.le a.1 b.1).map fun c => (Json.escape c.1, edits c.2))
    | none => .null)]

end WorkspaceEdit

/-- Which directive of which version of a document an action will expand. -/
structure ActionTarget where
  uri : Bytes := []
  version : Int := 0
  start : Int := 0
  stop : Int := 0
  deriving Repr, DecidableEq

namespace ActionTarget

def decode : ActionTarget → Json → Option ActionTarget :=
  Json.decodeRecord [
    ("uri", fun t j => (Json.decodeText t.uri j).map fun uri => { t with uri }),
    ("version", fun t j => (Json.decodeInt t.version j).map fun version => { t with version }),
    ("start", fun t j => (Json.decodeInt t.start j).map fun start => { t with start }),
    ("end", fun t j => (Json.decodeInt t.stop j).map fun stop => { t with stop })]

def toJson (t : ActionTarget) : Json :=
  Json.obj [("uri", .ofText t.uri), ("version", .ofInt t.version), ("start", .ofInt t.start), ("end", .ofInt t.stop)]

end ActionTarget

/-- An action that an editor may offer. One without an edit can have it filled in later. -/
structure Action where
  title : Bytes := []
  kind : Bytes := []
  findings : Json.Slots Finding := {}
  isPreferred : Bool := false
  edit : Option WorkspaceEdit := none
  target : Option ActionTarget := none
  deriving Repr, DecidableEq

namespace Action

def decode : Action → Json → Option Action :=
  Json.decodeRecord [
    ("title", fun a j => (Json.decodeText a.title j).map fun title => { a with title }),
    ("kind", fun a j => (Json.decodeText a.kind j).map fun kind => { a with kind }),
    ("diagnostics", fun a j =>
      (Json.decodeArray Finding.decode {} a.findings j).map fun findings => { a with findings }),
    ("isPreferred", fun a j => (Json.decodeBool a.isPreferred j).map fun isPreferred => { a with isPreferred }),
    ("edit", fun a j => (Json.decodeOption WorkspaceEdit.decode {} a.edit j).map fun edit => { a with edit }),
    ("data", fun a j => (Json.decodeOption ActionTarget.decode {} a.target j).map fun target => { a with target })]

def toJson (a : Action) : Json :=
  Json.obj ([("title", .ofText a.title)] ++ optionalText "kind" a.kind ++
    optionalList "diagnostics" Finding.toJson a.findings.items ++
    (if a.isPreferred then [("isPreferred", .bool true)] else []) ++
    optional "edit" WorkspaceEdit.toJson a.edit ++ optional "data" ActionTarget.toJson a.target)

end Action

/-- A named entity of the workspace. -/
structure Symbol where
  name : Bytes
  kind : Nat
  location : Location
  container : Bytes
  deriving Repr, DecidableEq

def Symbol.toJson (s : Symbol) : Json :=
  Json.obj ([("name", .ofText s.name), ("kind", .ofNat s.kind), ("location", s.location.toJson)] ++
    optionalText "containerName" s.container)

/-- What a hover shows, and for which range. -/
structure Hover where
  markdown : Bytes
  range : Range
  deriving Repr, DecidableEq

def Hover.toJson (h : Hover) : Json :=
  Json.obj [("contents", Json.obj [("kind", Json.str "markdown"), ("value", .ofText h.markdown)]),
    ("range", h.range.toJson)]

end Colloquy.Wire
