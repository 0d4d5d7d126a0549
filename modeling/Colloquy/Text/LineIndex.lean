import Colloquy.Search
import Colloquy.Text.Span

/-! # Line index

A table of line starts, so that many conversions over one text need not read it from the start each
time. The answers are those of `Position.ofOffset` and `Position.toOffset`.
-/

namespace Colloquy

/-- A text with the offsets at which its lines start; the first is zero. -/
structure LineIndex where
  text : Bytes
  starts : List Nat
  deriving Repr, DecidableEq

namespace LineIndex

/-- The offsets behind each line feed of a text that starts at offset `pos`. -/
def startsFrom (pos : Nat) : Bytes → List Nat
  | [] => []
  | b :: rest =>
    if b == Bytes.lf then (pos + 1) :: startsFrom (pos + 1) rest else startsFrom (pos + 1) rest

def ofText (t : Bytes) : LineIndex := ⟨t, 0 :: startsFrom 0 t⟩

/-- The number of lines; an empty text has one. -/
def lineCount (ix : LineIndex) : Nat := ix.starts.length

/-- The offset of the first byte of a line, clamped to the text. -/
def lineStart (ix : LineIndex) (line : Int) : Nat :=
  if line ≤ 0 then 0 else ix.starts.getD line.toNat ix.text.length

/-- The offset of the line feed that ends line number `line`, or the length of the text. -/
def lineEnd (ix : LineIndex) (line : Nat) : Nat :=
  match ix.starts[line + 1]? with
  | some next => next - 1
  | none => ix.text.length

/-- `lineEnd` for any 64-bit line number. The successor of the line number is a 64-bit word too, so
    that of the greatest number is negative and names no line: there is no answer. -/
def lineEnd? (ix : LineIndex) (line : Int64) : Option Nat :=
  if line < 0 then some 0
  else if line + 1 < 0 then none
  else some (ix.lineEnd line.toInt.toNat)

/-- The number of the line that holds `offset`: the last one that starts at or before it. -/
def lineOf (ix : LineIndex) (offset : Nat) : Nat :=
  let starts := ix.starts.toArray
  bisect (fun i => starts.getD i 0 > offset) 0 starts.size - 1

/-- The UTF-16 units of the first `budget` bytes of `t`, a rune cut at the end left out. -/
def countUnits : (skip budget : Nat) → Bytes → Nat
  | _, 0, _ => 0
  | _, _, [] => 0
  | skip + 1, budget + 1, _ :: rest => countUnits skip budget rest
  | 0, budget + 1, b :: rest =>
    let r := Rune.decode b rest
    if r.width > budget + 1 then 0 else r.units + countUnits (r.width - 1) budget rest

def position (ix : LineIndex) (offset : Int) : Position :=
  let o := min offset.toNat ix.text.length
  let line := ix.lineOf o
  let start := ix.starts.getD line 0
  ⟨line, countUnits 0 (o - start) (ix.text.drop start)⟩

def offset (ix : LineIndex) (p : Position) : Nat :=
  if p.line < 0 || p.character < 0 then 0
  else match ix.starts[p.line.toNat]? with
    | none => ix.text.length
    | some start =>
      start + Position.advance p.character.toNat 0 (ix.text.slice start (ix.lineEnd p.line.toNat))

def range (ix : LineIndex) (s : Span) : Range :=
  ⟨ix.position s.start.toNat, ix.position s.stop.toNat⟩

end LineIndex

end Colloquy
