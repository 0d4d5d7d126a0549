import Colloquy.Json.Decode
import Colloquy.Text.Position

/-! # Changes to documents

How an editor tells what was typed: each change replaces a range of the text, or all of it. Changes are
applied one after the other, each to the text that the one before it left.
-/

namespace Colloquy

namespace Position

def decode : Position → Json → Option Position :=
  Json.decodeRecord [
    ("line", fun p j => (Json.decodeInt p.line j).map fun n => { p with line := n }),
    ("character", fun p j => (Json.decodeInt p.character j).map fun n => { p with character := n })]

def toJson (p : Position) : Json := Json.obj [("line", .ofInt p.line), ("character", .ofInt p.character)]

def zero : Position := ⟨0, 0⟩

end Position

namespace Range

def decode : Range → Json → Option Range :=
  Json.decodeRecord [
    ("start", fun r j => (r.start.decode j).map fun p => { r with start := p }),
    ("end", fun r j => (r.stop.decode j).map fun p => { r with stop := p })]

def toJson (r : Range) : Json := Json.obj [("start", r.start.toJson), ("end", r.stop.toJson)]

/-- The empty range at the start of a text. -/
def zero : Range := ⟨Position.zero, Position.zero⟩

end Range

/-- A change: the new text, and the range that it replaces unless it replaces everything. -/
structure Change where
  range : Option Range := none
  text : Bytes := []

namespace Change

def decode : Change → Json → Option Change :=
  Json.decodeRecord [
    ("range", fun c j =>
      (Json.decodeOption Range.decode Range.zero c.range j).map fun range => { c with range }),
    ("text", fun c j => (Json.decodeText c.text j).map fun text => { c with text })]

/-- Apply a change. A range that ends before it starts is empty. -/
def apply (t : Bytes) (c : Change) : Bytes :=
  match c.range with
  | none => c.text
  | some r =>
    let start := r.start.toOffset t
    let stop := max start (r.stop.toOffset t)
    t.take start ++ c.text ++ t.drop stop

def applyAll (t : Bytes) (cs : List Change) : Bytes := cs.foldl apply t

end Change

end Colloquy
