import Colloquy.Text.Rune

/-! # Positions

A position is a line and a character, both counted from zero; characters count UTF-16 code units, as
editors do. This module converts between byte offsets and positions by reading the text from its
start. `LineIndex` answers the same questions from a table of line starts.
-/

namespace Colloquy

/-- A line and a UTF-16 character on it. Clients may send any integers. -/
structure Position where
  line : Int
  character : Int
  deriving Repr, DecidableEq, BEq, Inhabited

/-- A pair of positions, the end excluded. -/
structure Range where
  start : Position
  stop : Position
  deriving Repr, DecidableEq, BEq, Inhabited

namespace Position

/-- Earlier line first, then earlier character. -/
def before (p q : Position) : Bool :=
  if p.line != q.line then p.line < q.line else p.character < q.character

/-- Read on from line `line` and character `char`. `skip` bytes belong to a rune or line break already
    counted, and `budget` bytes lie before the offset asked for. A carriage return and line feed that
    both lie before the offset are one line break; a rune cut by the offset is not counted. -/
def scanFrom (line char : Nat) : (skip budget : Nat) → Bytes → Position
  | _, 0, _ => ⟨line, char⟩
  | _, _, [] => ⟨line, char⟩
  | skip + 1, budget + 1, _ :: rest => scanFrom line char skip budget rest
  | 0, budget + 1, b :: rest =>
    if b == Bytes.lf then scanFrom (line + 1) 0 0 budget rest
    else if b == Bytes.cr && 0 < budget && rest.head? == some Bytes.lf then
      scanFrom (line + 1) 0 1 budget rest
    else
      let r := Rune.decode b rest
      if r.width > budget + 1 then ⟨line, char⟩
      else scanFrom line (char + r.units) (r.width - 1) budget rest

/-- The position of a byte offset; offsets outside the text count as its start or end. -/
def ofOffset (t : Bytes) (offset : Int) : Position :=
  scanFrom 0 0 0 (min offset.toNat t.length) t

/-- How many bytes of the line `t` hold at most `want` UTF-16 units, without splitting a rune. -/
def advance (want : Nat) : (skip : Nat) → Bytes → Nat
  | _, [] => 0
  | skip + 1, _ :: rest => advance want skip rest + 1
  | 0, b :: rest =>
    let r := Rune.decode b rest
    if r.units > want then 0 else advance (want - r.units) (r.width - 1) rest + 1

/-- The bytes before the first line feed. -/
def lineOf (t : Bytes) : Bytes := t.takeWhile (· != Bytes.lf)

/-- What is left after `n` line feeds, with the number of bytes passed; `none` when there are fewer. -/
def dropLines : (n passed : Nat) → Bytes → Option (Nat × Bytes)
  | 0, passed, t => some (passed, t)
  | _ + 1, _, [] => none
  | n + 1, passed, b :: rest =>
    if b == Bytes.lf then dropLines n (passed + 1) rest else dropLines (n + 1) (passed + 1) rest

/-- The byte offset of a position: the inverse of `ofOffset`. A character past the end of its line
    counts as the line's end, a line past the last one as the end of the text, and a negative line or
    character as the start of the text. -/
def toOffset (t : Bytes) (p : Position) : Nat :=
  if p.line < 0 || p.character < 0 then 0
  else match dropLines p.line.toNat 0 t with
    | none => t.length
    | some (passed, rest) => passed + advance p.character.toNat 0 (lineOf rest)

end Position

end Colloquy
