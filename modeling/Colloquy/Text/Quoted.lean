import Colloquy.Text.Printable
import Colloquy.Text.Rune

/-! # Quoted text

Text in double quotes, as messages show names and paths. Quotes and backslashes are escaped, characters
that cannot be shown are written by their code, and undecodable bytes by their value.
-/

namespace Colloquy.Quoted

def hexDigit (n : Nat) : UInt8 := if n < 10 then (0x30 + n).toUInt8 else (0x57 + n).toUInt8

/-- The last `width` hexadecimal digits of a number. -/
def hex : (width : Nat) → Nat → Bytes
  | 0, _ => []
  | width + 1, n => hex width (n / 16) ++ [hexDigit (n % 16)]

def shortEscapes : List (Nat × UInt8) :=
  [(0x07, 0x61), (0x08, 0x62), (0x0C, 0x66), (0x0A, 0x6E), (0x0D, 0x72), (0x09, 0x74), (0x0B, 0x76)]

def character (code : Nat) : Bytes :=
  if code == 0x22 || code == 0x5C then [0x5C, code.toUInt8]
  else if isPrintable code then Rune.encode code
  else match shortEscapes.find? (·.1 == code) with
    | some e => [0x5C, e.2]
    | none =>
      if code < 0x20 || code == 0x7F then utf8 "\\x" ++ hex 2 code
      else if code < 0x10000 then utf8 "\\u" ++ hex 4 code
      else utf8 "\\U" ++ hex 8 code

/-- The text inside quotes, where `skip` bytes belong to a character already written. -/
def charactersFrom : Nat → Bytes → Bytes
  | _, [] => []
  | skip + 1, _ :: rest => charactersFrom skip rest
  | 0, b :: rest =>
    let r := Rune.decode b rest
    (if r.isInvalid then utf8 "\\x" ++ hex 2 b.toNat else character r.code) ++
      charactersFrom (r.width - 1) rest

def encode (t : Bytes) : Bytes := [0x22] ++ charactersFrom 0 t ++ [0x22]

end Colloquy.Quoted
