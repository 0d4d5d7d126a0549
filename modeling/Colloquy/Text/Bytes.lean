/-! # Byte strings

Documents, names and messages are byte strings. Most are UTF-8, but nothing guarantees it: a document
may hold any bytes, and offsets into it count bytes. This module has the operations on byte strings
that know nothing about characters.
-/

namespace Colloquy

/-- A text: any sequence of bytes, valid UTF-8 or not. -/
abbrev Bytes := List UInt8

def utf8 (s : String) : Bytes := s.toUTF8.data.toList

namespace Bytes

abbrev lf : UInt8 := 0x0A
abbrev cr : UInt8 := 0x0D
abbrev tab : UInt8 := 0x09
abbrev space : UInt8 := 0x20

def isLetter (b : UInt8) : Bool := (0x61 ≤ b && b ≤ 0x7A) || (0x41 ≤ b && b ≤ 0x5A)

def isDigit (b : UInt8) : Bool := 0x30 ≤ b && b ≤ 0x39

/-- A blank inside a line: space or tab. -/
def isBlankByte (b : UInt8) : Bool := b == space || b == tab

/-- Space, tab, line feed or carriage return. -/
def isSpaceByte (b : UInt8) : Bool := b == space || b == tab || b == lf || b == cr

/-- An ASCII capital becomes the small letter; every other byte stays. -/
def lowerByte (b : UInt8) : UInt8 := if 0x41 ≤ b && b ≤ 0x5A then b + 32 else b

def lowerAscii (t : Bytes) : Bytes := t.map lowerByte

/-- The bytes from offset `start` up to but not including offset `stop`. -/
def slice (t : Bytes) (start stop : Nat) : Bytes := (t.drop start).take (stop - start)

/-- Whether `t` begins with `head`. -/
def startsWith (t head : Bytes) : Bool := head.isPrefixOf t

/-- Whether `t` ends with `tail`. -/
def endsWith (t tail : Bytes) : Bool := tail.isSuffixOf t

/-- What follows `head`, when `t` begins with it. -/
def after? (t head : Bytes) : Option Bytes :=
  if startsWith t head then some (t.drop head.length) else none

/-- `t` without `head` in front, or `t` itself. -/
def dropHead (t head : Bytes) : Bytes := (after? t head).getD t

/-- The offset of the first `b`. -/
def indexOf? (t : Bytes) (b : UInt8) : Option Nat := t.findIdx? (· == b)

/-- The offset of the first occurrence of `part`. -/
def find? (t part : Bytes) : Option Nat :=
  match t with
  | [] => if part.isEmpty then some 0 else none
  | b :: rest =>
    if part.isPrefixOf (b :: rest) then some 0 else (find? rest part).map (· + 1)

/-- Whether `part` occurs in `t`. -/
def contains (t part : Bytes) : Bool := (find? t part).isSome

/-- `t` without the bytes at its end that satisfy `p`. -/
def trimEndWhile (t : Bytes) (p : UInt8 → Bool) : Bytes := (t.reverse.dropWhile p).reverse

/-- The pieces of `t` between occurrences of the byte `sep`; there is always at least one. -/
def splitOn (t : Bytes) (sep : UInt8) : List Bytes :=
  match t with
  | [] => [[]]
  | b :: rest =>
    if b == sep then [] :: splitOn rest sep
    else match splitOn rest sep with
      | [] => [[b]]
      | piece :: pieces => (b :: piece) :: pieces

/-- The pieces joined, with `sep` between neighbours. -/
def join (sep : Bytes) : List Bytes → Bytes
  | [] => []
  | [piece] => piece
  | piece :: pieces => piece ++ sep ++ join sep pieces

/-- The part before the first `sep` and the part after it. -/
def cut? (t : Bytes) (sep : UInt8) : Option (Bytes × Bytes) :=
  (indexOf? t sep).map fun i => (t.take i, t.drop (i + 1))

/-- One pass of replacement: `skip` bytes of a replaced occurrence are still to be dropped. -/
def replaceFrom (old new : Bytes) : Nat → Bytes → Bytes
  | _, [] => []
  | skip + 1, _ :: rest => replaceFrom old new skip rest
  | 0, b :: rest =>
    if old.isPrefixOf (b :: rest) then new ++ replaceFrom old new (old.length - 1) rest
    else b :: replaceFrom old new 0 rest

/-- Every occurrence of the non-empty `old`, from left to right and without overlap, becomes `new`. -/
def replaceAll (t old new : Bytes) : Bytes := replaceFrom old new 0 t

/-- `part` written `n` times. -/
def times (n : Nat) (part : Bytes) : Bytes := (List.replicate n part).flatten

def le : Bytes → Bytes → Bool
  | [], _ => true
  | _ :: _, [] => false
  | a :: s, b :: t => a < b || (a == b && le s t)

/-- The texts in byte order; equal texts keep their places. -/
def sorted (ts : List Bytes) : List Bytes := ts.mergeSort le

def ofNat (n : Nat) : Bytes := (Nat.toDigits 10 n).map fun c => c.toNat.toUInt8

/-- Decimal digits of an integer, after a minus sign when it is negative. -/
def ofInt : Int → Bytes
  | .ofNat n => ofNat n
  | .negSucc n => 0x2D :: ofNat (n + 1)

/-- The number that a non-empty run of decimal digits spells. -/
def toNat? (t : Bytes) : Option Nat :=
  if t.isEmpty || !t.all isDigit then none
  else some (t.foldl (fun n b => n * 10 + (b.toNat - 0x30)) 0)

def hexValue? (b : UInt8) : Option Nat :=
  if 0x30 ≤ b && b ≤ 0x39 then some (b.toNat - 0x30)
  else if 0x61 ≤ b && b ≤ 0x66 then some (b.toNat - 0x57)
  else if 0x41 ≤ b && b ≤ 0x46 then some (b.toNat - 0x37)
  else none

/-- The number that a non-empty run of digits spells in a base up to 16. -/
def inBase? (base : Nat) (t : Bytes) : Option Nat :=
  if t.isEmpty then none
  else t.foldl (fun acc b => match acc, hexValue? b with
    | some n, some d => if d < base then some (n * base + d) else none
    | _, _ => none) (some 0)

/-- `t` with spaces before it up to `width` bytes. -/
def padLeft (t : Bytes) (width : Nat) : Bytes := List.replicate (width - t.length) space ++ t

end Bytes

end Colloquy
