import Colloquy.Text.Bytes
import Colloquy.Word

/-! # Decimal numbers

A decimal is a whole number times a power of ten, without a sign. Programs keep decimals as doubles, so
what counts is the double that is nearest: whether there is one, and whether it is a whole number.
-/

namespace Colloquy

/-- Numerator and denominator of the double nearest to `above / below`, which are not zero and not so small
    or large that doubles near them are rarer. A double has 53 binary digits, and a tie goes to the even
    one. -/
def nearestDouble (above below : Nat) : Nat × Nat :=
  let shift : Int := 53 + (Nat.log2 below : Int) - (Nat.log2 above : Int)
  let scaled (shift : Int) : Nat × Nat := (above * twoTo shift.toNat, below * twoTo (-shift).toNat)
  let shift := if (scaled shift).1 / (scaled shift).2 < twoTo 53 then shift else shift - 1
  let (upper, lower) := scaled shift
  let digits := upper / lower
  let rest := upper % lower
  let isUp := lower < 2 * rest || (lower == 2 * rest && digits % 2 == 1)
  ((if isUp then digits + 1 else digits) * twoTo (-shift).toNat, twoTo shift.toNat)

/-- A whole number times a power of ten. -/
structure Decimal where
  digits : Nat
  exponent : Int
  deriving Repr, DecidableEq

namespace Decimal

/-- Split at a byte for which `p` holds. -/
def cutWhere (p : UInt8 → Bool) (t : Bytes) : Bytes × Option Bytes :=
  match t.dropWhile (fun b => !p b) with
  | [] => (t, none)
  | _ :: rest => (t.takeWhile (fun b => !p b), some rest)

def unsigned (t : Bytes) : Bytes :=
  match t with
  | 0x2B :: rest => rest
  | 0x2D :: rest => rest
  | _ => t

/-- The decimal of a literal: digits, perhaps with a point among them, and perhaps an exponent. A sign is
    passed over. -/
def ofLiteral (t : Bytes) : Decimal :=
  let (mantissa, exponent) := cutWhere (fun b => b == 0x65 || b == 0x45) (unsigned t)
  let (whole, fraction) := cutWhere (· == 0x2E) mantissa
  let fraction := fraction.getD []
  let exponent := exponent.getD []
  let size : Int := ((Bytes.toNat? (unsigned exponent)).getD 0 : Nat)
  let power := if exponent.head? == some 0x2D then -size else size
  ⟨(Bytes.toNat? (whole ++ fraction)).getD 0, power - fraction.length⟩

/-- The decimal lies below ten to this power, and not below a tenth of that. -/
def magnitude (d : Decimal) : Int := d.exponent + ((Nat.toDigits 10 d.digits).length : Nat)

def fraction (d : Decimal) : Nat × Nat :=
  if 0 ≤ d.exponent then (d.digits * tenTo d.exponent.toNat, 1) else (d.digits, tenTo (-d.exponent).toNat)

/-- Whether there is a double near the decimal: it does not round to infinity. -/
def fitsDouble (d : Decimal) : Bool :=
  if d.digits == 0 || d.magnitude < 300 then true
  else if d.magnitude > 400 then false
  else d.fraction.1 < (twoTo 1024 - twoTo 970) * d.fraction.2

/-- The double nearest to the decimal, when that is a whole number less than 2^32. The least decimals round
    to zero. -/
def whole? (d : Decimal) : Option Nat :=
  if d.digits == 0 || d.magnitude < -400 then some 0
  else if d.magnitude > 12 then none
  else
    let (above, below) := d.fraction
    if above * twoTo 1075 ≤ below then some 0
    else
      let (above, below) := nearestDouble above below
      if above % below == 0 && above / below < twoTo 32 then some (above / below) else none

end Decimal

end Colloquy
