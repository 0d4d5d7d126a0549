import Colloquy.Text.Position
import Colloquy.Word

/-! # Spans

A half-open byte range in 32-bit words, as findings and edits carry it. Building one clamps: negative
bounds become zero, bounds past 2^32 - 1 become that number, and reversed bounds are swapped.
-/

namespace Colloquy

/-- The half-open byte range from `start` to `stop`. -/
structure Span where
  start : UInt32
  stop : UInt32
  deriving Repr, DecidableEq, BEq, Inhabited

namespace Span

def clamp (n : Int) : UInt32 := (min n.toNat 0xFFFFFFFF).toUInt32

/-- The span between two offsets, in either order. -/
def of (start stop : Int) : Span :=
  if stop < start then ⟨clamp stop, clamp start⟩ else ⟨clamp start, clamp stop⟩

/-- Whether the span holds no byte. -/
def isEmpty (s : Span) : Bool := s.start == s.stop

def length (s : Span) : UInt32 := s.stop - s.start

/-- Whether `offset` lies in the span or right behind it: a cursor after a token still touches it. -/
def touches (s : Span) (offset : Int) : Bool := s.start.toNat ≤ offset && offset ≤ s.stop.toNat

def cover (s other : Span) : Span :=
  ⟨if other.start < s.start then other.start else s.start,
   if other.stop > s.stop then other.stop else s.stop⟩

/-- The value that `n` wraps to in 64-bit two's complement. -/
def wrap64 (n : Int) : Int := Int.bmod n wordCount

/-- The span moved right by `n` bytes; the sums are 64-bit words. -/
def shift (s : Span) (n : Int) : Span := of (wrap64 (s.start.toNat + n)) (wrap64 (s.stop.toNat + n))

/-- The two bounds in decimal, with a hyphen between them. -/
def render (s : Span) : Bytes :=
  Bytes.ofNat s.start.toNat ++ [0x2D] ++ Bytes.ofNat s.stop.toNat

/-- Where the line that holds `offset` ends, its terminator excluded. A carriage return before the
    line feed belongs to the terminator. -/
def lineStop (t : Bytes) (offset : Nat) : Nat :=
  let line := Position.lineOf (t.drop offset)
  if line.getLast? == some Bytes.cr then offset + line.length - 1 else offset + line.length

/-- The span from `offset` to the end of its line, the line terminator excluded. -/
def restOfLine (t : Bytes) (offset : Int) : Span :=
  let start := min offset.toNat t.length
  of start (lineStop t start)

end Span

end Colloquy
