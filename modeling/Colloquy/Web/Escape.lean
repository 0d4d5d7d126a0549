import Colloquy.Text.Bytes

/-! # Escapes in web addresses

A byte that cannot stand for itself in an address is written as a percent sign and two hexadecimal
digits. Which bytes can, depends on the part of the address.
-/

namespace Colloquy.Web

/-- The parts of an address that have rules of their own. -/
inductive Part
  /-- The name or the password of a user. -/
  | user
  | host
  /-- What follows the percent sign of a host's address. -/
  | zone
  | path
  /-- A name or a value in a query. -/
  | query
  | fragment
  deriving Repr, DecidableEq

/-- A letter, a digit or a mark that stands for itself anywhere. -/
def isUnreserved (b : UInt8) : Bool :=
  Bytes.isLetter b || Bytes.isDigit b || b == 0x2D || b == 0x5F || b == 0x2E || b == 0x7E

def Part.marks : Part → Bytes
  | .user => utf8 "$&+,;="
  | .host | .zone => utf8 "!$&'()*+,;=:[]<>\""
  | .path => utf8 "$&+,/:;=@"
  | .query => []
  | .fragment => utf8 "$&+,/:;=?@!()*"

def Part.allows (p : Part) (b : UInt8) : Bool := isUnreserved b || p.marks.any (· == b)

def hexDigit (n : Nat) : UInt8 := if n < 10 then (0x30 + n).toUInt8 else (0x37 + n).toUInt8

def escapeByte (b : UInt8) : Bytes := [0x25, hexDigit (b.toNat / 16), hexDigit (b.toNat % 16)]

/-- A text as it stands in a part. In a query a space becomes a plus sign. -/
def escape (p : Part) (t : Bytes) : Bytes :=
  t.flatMap fun b =>
    if p.allows b then [b]
    else if p == .query && b == Bytes.space then [0x2B]
    else escapeByte b

/-- Whether a part may hold the escape of a byte. In a host only bytes outside ASCII and the percent sign
    are escaped, and in a zone only what a host may hold, the percent sign and spaces. -/
def Part.allowsEscape (p : Part) (b : UInt8) : Bool :=
  match p with
  | .host => 0x80 ≤ b || b == 0x25
  | .zone => Part.host.allows b || b == 0x25 || b == Bytes.space
  | _ => true

/-- Whether a part may hold a byte that is not escaped. Only hosts are strict about this. -/
def Part.allowsPlain (p : Part) (b : UInt8) : Bool :=
  match p with
  | .host | .zone => 0x80 ≤ b || p.allows b
  | _ => true

/-- The text that a part stands for; nothing when an escape is broken or a byte is not allowed. -/
def unescape? (p : Part) : Bytes → Option Bytes
  | [] => some []
  | 0x25 :: a :: b :: rest => do
    let byte := ((← Bytes.hexValue? a) * 16 + (← Bytes.hexValue? b)).toUInt8
    if p.allowsEscape byte then return byte :: (← unescape? p rest) else none
  | b :: rest => if b == 0x25 || !p.allowsPlain b then none else (unescape? p rest).map (b :: ·)

def isWritten (p : Part) (t : Bytes) : Bool :=
  t.all fun b => p.allows b || (utf8 "!$&'()*+,;=:@[]%").any (· == b)

end Colloquy.Web
