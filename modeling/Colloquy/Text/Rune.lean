import Colloquy.Text.Bytes
import Colloquy.Word

/-! # Runes

Reading UTF-8 from arbitrary bytes. Every byte string decodes to a sequence of runes: a well-formed
sequence of one to four bytes is one rune, and a byte that starts no well-formed sequence is a rune
of its own that stands for the replacement character. The widths of the runes add up to the length of
the text.
-/

namespace Colloquy

/-- One decoded rune: its code point and the number of bytes it takes. -/
structure Rune where
  code : Nat
  width : Nat
  deriving Repr, DecidableEq, BEq

namespace Rune

abbrev replacement : Nat := 0xFFFD

def invalid : Rune := ⟨replacement, 1⟩

def isContinuation (b : UInt8) : Bool := 0x80 ≤ b && b ≤ 0xBF

def payload (b : UInt8) : Nat := b.toNat - 0x80

/-- Which second bytes a three-byte sequence allows: no overlong forms, no surrogates. -/
def isSecondOfThree (lead b : UInt8) : Bool :=
  if lead == 0xE0 then 0xA0 ≤ b && b ≤ 0xBF
  else if lead == 0xED then 0x80 ≤ b && b ≤ 0x9F
  else isContinuation b

/-- Which second bytes a four-byte sequence allows: no overlong forms, nothing past U+10FFFF. -/
def isSecondOfFour (lead b : UInt8) : Bool :=
  if lead == 0xF0 then 0x90 ≤ b && b ≤ 0xBF
  else if lead == 0xF4 then 0x80 ≤ b && b ≤ 0x8F
  else isContinuation b

/-- The rune that starts with byte `lead`, which `rest` follows. -/
def decode (lead : UInt8) (rest : Bytes) : Rune :=
  if lead < 0x80 then ⟨lead.toNat, 1⟩
  else if 0xC2 ≤ lead && lead ≤ 0xDF then
    match rest with
    | b1 :: _ =>
      if isContinuation b1 then ⟨(lead.toNat - 0xC0) * 64 + payload b1, 2⟩ else invalid
    | [] => invalid
  else if 0xE0 ≤ lead && lead ≤ 0xEF then
    match rest with
    | b1 :: b2 :: _ =>
      if isSecondOfThree lead b1 && isContinuation b2 then
        ⟨(lead.toNat - 0xE0) * 4096 + payload b1 * 64 + payload b2, 3⟩
      else invalid
    | _ => invalid
  else if 0xF0 ≤ lead && lead ≤ 0xF4 then
    match rest with
    | b1 :: b2 :: b3 :: _ =>
      if isSecondOfFour lead b1 && isContinuation b2 && isContinuation b3 then
        ⟨(lead.toNat - 0xF0) * 262144 + payload b1 * 4096 + payload b2 * 64 + payload b3, 4⟩
      else invalid
    | _ => invalid
  else invalid

/-- Whether the rune is an undecodable byte rather than a written replacement character. -/
def isInvalid (r : Rune) : Bool := r.code == replacement && r.width == 1

def units (r : Rune) : Nat := if r.code > 0xFFFF then 2 else 1

/-- The UTF-8 bytes of a code point; surrogates and numbers past U+10FFFF become the replacement
    character. -/
def encode (code : Nat) : Bytes :=
  if code < 0x80 then [code.toUInt8]
  else if code < 0x800 then [(0xC0 + code / 64).toUInt8, (0x80 + code % 64).toUInt8]
  else if (0xD800 ≤ code && code ≤ 0xDFFF) || 0x10FFFF < code then [0xEF, 0xBF, 0xBD]
  else if code < 0x10000 then
    [(0xE0 + code / 4096).toUInt8, (0x80 + code / 64 % 64).toUInt8, (0x80 + code % 64).toUInt8]
  else
    [(0xF0 + code / 262144).toUInt8, (0x80 + code / 4096 % 64).toUInt8,
      (0x80 + code / 64 % 64).toUInt8, (0x80 + code % 64).toUInt8]

end Rune

namespace Bytes

/-- The runes of a text of which `skip` bytes belong to a rune already read. -/
def runesFrom : Nat → Bytes → List Rune
  | _, [] => []
  | skip + 1, _ :: rest => runesFrom skip rest
  | 0, b :: rest =>
    let r := Rune.decode b rest
    r :: runesFrom (r.width - 1) rest

def runes (t : Bytes) : List Rune := runesFrom 0 t

def widthOf (rs : List Rune) : Nat := total (rs.map Rune.width)

def isUtf8 (t : Bytes) : Bool := (runes t).all fun r => !r.isInvalid

def ofCodes (codes : List Nat) : Bytes := codes.flatMap Rune.encode

def codes (t : Bytes) : List Nat := (runes t).map Rune.code

/-- The text with every undecodable byte written as the replacement character. -/
def sanitize (t : Bytes) : Bytes := ofCodes (codes t)

end Bytes

end Colloquy
