import Colloquy.Document.Block
import Colloquy.Document.Line
import Colloquy.Document.Node

/-! # Documents

A document is a text with its header and the constructs of its body. It may start with a header: a line of
three hyphens, the configuration, and a line of three hyphens or three dots. A header that is never closed
runs to the end of the text. Scanning never fails: what is malformed stays plain text.
-/

namespace Colloquy

namespace Document

/-- A header; it always starts at offset zero. -/
structure Header where
  /-- Whether a closing line was found. -/
  closed : Bool
  /-- Where the configuration lies. -/
  content : Extent
  /-- The first byte behind the closing line. -/
  stop : Nat
  deriving Repr, DecidableEq

namespace Header

/-- The line without blanks at its end. -/
def bare (l : Line) : Bytes := l.content.trimEndWhile Bytes.isBlankByte

def closes (l : Line) : Bool := bare l == utf8 "---" || bare l == utf8 "..."

/-- The header of a text, if its first line opens one. The opening line needs a terminator. -/
def ofText? (t : Bytes) : Option Header :=
  match Line.ofText 0 t with
  | [] => none
  | opening :: rest =>
    if bare opening == utf8 "---" && opening.next != opening.stop then
      match rest.find? closes with
      | some l => some ⟨true, ⟨opening.next, l.start⟩, l.next⟩
      | none => some ⟨false, ⟨opening.next, t.length⟩, t.length⟩
    else none

end Header

end Document

/-- A scanned text. -/
structure Document where
  text : Bytes
  header : Option Document.Header
  /-- The constructs of the body, by where they start. -/
  nodes : List Document.Node
  deriving Repr, DecidableEq

namespace Document

def bodyOf (header : Option Header) : Nat := (header.map Header.stop).getD 0

/-- The nodes of the text behind offset `body`, by where they start. -/
def bodyNodes (text : Bytes) (body : Nat) : List Node :=
  (Block.run text .start (Line.ofText body (text.drop body))).mergeSort fun a b => a.start ≤ b.start

def ofText (text : Bytes) : Document :=
  let header := Header.ofText? text
  ⟨text, header, bodyNodes text (bodyOf header)⟩

def body (d : Document) : Nat := bodyOf d.header

/-- The configuration in the header, empty when there is none. -/
def headerText (d : Document) : Bytes :=
  match d.header with
  | some h => h.content.of d.text
  | none => []

def headerStart (d : Document) : Nat :=
  match d.header with
  | some h => h.content.start
  | none => 0

/-- The nodes of one kind, in document order. -/
def nodesOf (d : Document) (kind : Kind) : List Node := d.nodes.filter fun n => n.kind == kind

end Document

end Colloquy
