import Colloquy.Json.Decode
import Colloquy.Text.Space
import Colloquy.Xml.Node

/-! # Pages of model lists

A page of a plain list: the names on it, whether more follow, and the last name, by which the next page is
asked for. A page is written in JSON or in XML, and a body may hold several of them, which are read one
over the other.
-/

namespace Colloquy

/-- One page of a plain list. -/
structure Page where
  names : Json.Slots Bytes := {}
  hasMore : Bool := false
  lastId : Bytes := []
  deriving Repr, DecidableEq

namespace Page

def decodeItem : Bytes → Json → Option Bytes := Json.decodeRecord [("id", Json.decodeText)]

def decode : Page → Json → Option Page :=
  Json.decodeRecord [
    ("data", fun page j => (Json.decodeArray decodeItem [] page.names j).map fun names => { page with names }),
    ("has_more", fun page j => (Json.decodeBool page.hasMore j).map fun hasMore => { page with hasMore }),
    ("last_id", fun page j => (Json.decodeText page.lastId j).map fun lastId => { page with lastId })]

/-- Read all JSON values of a body, one over the other. -/
def decodeBody : (fuel : Nat) → Page → Bytes → Option Page
  | 0, _, _ => none
  | fuel + 1, page, body =>
    let body := Json.skipSpace body
    if body.isEmpty then some page
    else match Json.valueAt (2 * body.length + 2) 0 body with
      | none => none
      | some (j, rest) => (page.decode j).bind fun page => decodeBody fuel page rest

def ofJson? (body : Bytes) : Option Page := decodeBody (body.length + 1) {} body

def truthWords : List (String × Bool) :=
  [("1", true), ("t", true), ("T", true), ("true", true), ("TRUE", true), ("True", true),
    ("0", false), ("f", false), ("F", false), ("false", false), ("FALSE", false), ("False", false)]

/-- The truth value that characters spell; none at all are false. -/
def truth? (t : Bytes) : Option Bool :=
  if t.isEmpty then some false
  else (truthWords.find? fun w => utf8 w.1 == Bytes.trim t).map (·.2)

/-- The name in an item: the last one counts. -/
def itemName (children : List Xml.Node) : Bytes :=
  children.foldl (fun found child => match child with
    | .element name inside => if name == utf8 "ID" then Xml.textOf inside else found
    | .text _ => found) []

/-- Read one part of a page in XML. Items follow those read before. -/
def addPart (page : Page) : Xml.Node → Option Page
  | .text _ => some page
  | .element name children =>
    if name == utf8 "Data" then some { page with names := page.names.items ++ [itemName children] }
    else if name == utf8 "HasMore" then (truth? (Xml.textOf children)).map fun hasMore => { page with hasMore }
    else if name == utf8 "LastID" then some { page with lastId := Xml.textOf children }
    else some page

/-- Read an element over an earlier page, whatever the name of the element is. -/
def addElement (page : Page) : Xml.Node → Option Page
  | .text _ => some page
  | .element _ parts => parts.foldlM addPart page

def ofXml? (body : Bytes) : Option Page := (Xml.parse? body).bind fun nodes => nodes.foldlM addElement {}

/-- The page in a body of a type. A body of another type than JSON and XML is not read. -/
def ofBody? (type body : Bytes) : Option Page :=
  if Bytes.contains type (utf8 "json") then ofJson? body
  else if Bytes.contains type (utf8 "xml") then ofXml? body
  else some {}

end Page

end Colloquy
