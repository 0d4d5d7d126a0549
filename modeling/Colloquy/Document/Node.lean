import Colloquy.Text.Bytes

/-! # Document nodes

What the scan of a document reports: where each construct lies, of which kind it is and what it is
called.
-/

namespace Colloquy

/-- A stretch of a document, from byte offset `start` up to `stop`. -/
structure Extent where
  start : Nat
  stop : Nat
  deriving Repr, DecidableEq, BEq, Inhabited

namespace Extent

def of (e : Extent) (text : Bytes) : Bytes := text.slice e.start e.stop

/-- Whether `offset` lies in the stretch or right behind it. -/
def touches (e : Extent) (offset : Int) : Bool := e.start ≤ offset && offset ≤ e.stop

def length (e : Extent) : Nat := e.stop - e.start

end Extent

namespace Document

/-- What kind of construct a node is. -/
inductive Kind where
  /-- A text directive, `:name[content]` with optional attributes in braces. -/
  | directive
  /-- An inline link or image, an autolink or a link definition. -/
  | link
  /-- A container between two rows of colons. -/
  | container
  /-- A literal block that starts with a tag in the first column. -/
  | html
  /-- Code between two fences of backticks or tildes. -/
  | fencedCode
  /-- Code indented by four columns. -/
  | indentedCode
  deriving Repr, DecidableEq, BEq, Inhabited

def Kind.all : List Kind := [.directive, .link, .container, .html, .fencedCode, .indentedCode]

def Kind.label : Kind → String
  | .directive => "directive"
  | .link => "link"
  | .container => "container"
  | .html => "html"
  | .fencedCode => "fenced-code"
  | .indentedCode => "indented-code"

/-- One construct of a document. -/
structure Node where
  kind : Kind
  /-- The name of a directive or container, or the tag of a literal block. -/
  name : Bytes
  start : Nat
  stop : Nat
  /-- How many containers are open around a container. -/
  depth : Nat
  deriving Repr, DecidableEq, BEq, Inhabited

def Node.extent (n : Node) : Extent := ⟨n.start, n.stop⟩

end Document

end Colloquy
