import Colloquy.Text.Space

/-! # Lines of a document

A line ends at a line feed, and a carriage return right before the line feed or the end of the text
belongs to the line's end.
-/

namespace Colloquy.Document

/-- One line. -/
structure Line where
  /-- The offset of its first byte. -/
  start : Nat
  /-- Its bytes, without the terminator. -/
  content : Bytes
  /-- The offset at which the next line starts. -/
  next : Nat
  deriving Repr, DecidableEq

namespace Line

/-- The offset behind the content. -/
def stop (l : Line) : Nat := l.start + l.content.length

/-- A line without one carriage return at its end. -/
def dropReturn (t : Bytes) : Bytes := if t.getLast? == some Bytes.cr then t.dropLast else t

/-- Lay out the pieces between line feeds one behind the other. A last piece with no byte in it is no
    line. -/
def layOut (start : Nat) : List Bytes → List Line
  | [] => []
  | [last] => if last.isEmpty then [] else [⟨start, dropReturn last, start + last.length⟩]
  | piece :: pieces =>
    ⟨start, dropReturn piece, start + piece.length + 1⟩ :: layOut (start + piece.length + 1) pieces

/-- The lines of a text whose first byte has offset `start`. -/
def ofText (start : Nat) (t : Bytes) : List Line := layOut start (t.splitOn Bytes.lf)

/-- The column reached by the spaces and tabs that start a line; a tab goes to the next multiple of
    four. -/
def indentFrom (column : Nat) : Bytes → Nat
  | [] => column
  | b :: rest =>
    if b == Bytes.space then indentFrom (column + 1) rest
    else if b == Bytes.tab then indentFrom (column + (4 - column % 4)) rest
    else column

def indent (t : Bytes) : Nat := indentFrom 0 t

end Line

end Colloquy.Document
