import Colloquy.Diagnostic.Basic
import Colloquy.Host.Environment
import Colloquy.Text.Case
import Colloquy.Text.LineIndex
import Colloquy.Text.Space

/-! # Reports

The diagnostics of a document as they are shown to people: under which path, and in which line and
column, both counted from one, where a column is a character.
-/

namespace Colloquy

/-- How paths are shown. -/
inductive PathMode
  /-- Relative to the base directory if they lie under it, else as they are. -/
  | auto
  | absolute
  | relative
  | basename
  deriving Repr, DecidableEq, BEq

namespace PathMode

def names : List (String × PathMode) :=
  [("", .auto), ("auto", .auto), ("absolute", .absolute), ("abs", .absolute), ("relative", .relative),
   ("rel", .relative), ("basename", .basename), ("base", .basename)]

def ofText? (t : Bytes) : Option PathMode :=
  let word := Bytes.lower (Bytes.trim t)
  (names.find? fun n => utf8 n.1 == word).map (·.2)

/-- A path as it is shown, where `base` is the base directory, if there is one. -/
def render (mode : PathMode) (cwd base path : Bytes) : Bytes :=
  match mode with
  | .basename => Path.base path
  | .absolute => Path.abs cwd path
  | .relative => if base.isEmpty then path else (Path.rel? base path).getD path
  | .auto =>
    if base.isEmpty then path
    else match Path.rel? base path with
      | some rel => if Bytes.startsWith rel Path.up then path else rel
      | none => path

end PathMode

/-- A checked document. -/
structure Report where
  path : Bytes
  text : Bytes
  diagnostics : List Diagnostic
  deriving Repr

namespace Report

def lineColumn (lines : LineIndex) (offset : Nat) : Nat × Nat :=
  let offset := min offset lines.text.length
  let line := lines.lineOf offset
  let start := lines.lineStart line
  (line + 1, (Bytes.runes (Bytes.slice lines.text start offset)).length + 1)

end Report

end Colloquy
