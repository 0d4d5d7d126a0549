import Colloquy.Text.Bytes

/-! # Base 64

Bytes written with 64 printable characters, six bits each, and filled up with equals signs to groups of
four.
-/

namespace Colloquy.Base64

def digit (n : Nat) : UInt8 :=
  if n < 26 then (65 + n).toUInt8
  else if n < 52 then (71 + n).toUInt8
  else if n < 62 then (n - 4).toUInt8
  else if n == 62 then 0x2B else 0x2F

def value? (b : UInt8) : Option Nat :=
  let n := b.toNat
  if 65 ≤ n && n ≤ 90 then some (n - 65)
  else if 97 ≤ n && n ≤ 122 then some (n - 71)
  else if 48 ≤ n && n ≤ 57 then some (n + 4)
  else if b == 0x2B then some 62
  else if b == 0x2F then some 63
  else none

def encode : Bytes → Bytes
  | a :: b :: c :: rest =>
    let n := a.toNat * 65536 + b.toNat * 256 + c.toNat
    digit (n / 262144) :: digit (n / 4096 % 64) :: digit (n / 64 % 64) :: digit (n % 64) :: encode rest
  | [a, b] =>
    let n := (a.toNat * 256 + b.toNat) * 4
    [digit (n / 4096), digit (n / 64 % 64), digit (n % 64), 0x3D]
  | [a] => [digit (a.toNat * 16 / 64), digit (a.toNat * 16 % 64), 0x3D, 0x3D]
  | [] => []

def join : List Nat → Bytes
  | a :: b :: c :: d :: rest =>
    let n := a * 262144 + b * 4096 + c * 64 + d
    (n / 65536).toUInt8 :: (n / 256 % 256).toUInt8 :: (n % 256).toUInt8 :: join rest
  | [a, b, c] =>
    let n := a * 4096 + b * 64 + c
    [(n / 1024).toUInt8, (n / 4 % 256).toUInt8]
  | [a, b] => [((a * 64 + b) / 16).toUInt8]
  | _ => []

/-- The bytes of a written form; what is no digit is skipped. -/
def decode (t : Bytes) : Bytes := join (t.filterMap value?)

end Colloquy.Base64
