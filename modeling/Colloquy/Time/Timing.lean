import Colloquy.Text.Bytes
import Colloquy.Text.Rune
import Colloquy.Word

/-! # Phase timings

Time spent per phase of a command, summed over its runs. Phases are reported in the order in which they
were first seen.
-/

namespace Colloquy

/-! ## Fixed places

Numbers written with a fixed count of decimal places. A quotient is first taken to the nearest binary
fraction of 53 bits and then to the nearest decimal; a tie goes to the even neighbour both times.
-/

/-- A quotient rounded to the nearest whole number, and a half to the even one. -/
def roundDiv (num den : Nat) : Nat :=
  let q := num / den
  let r := num % den
  if 2 * r > den || (2 * r == den && q % 2 == 1) then q + 1 else q

/-- A binary fraction: `mantissa` times the power of two of `exponent`. -/
structure Dyadic where
  mantissa : Nat
  exponent : Int
  deriving Repr, DecidableEq

namespace Dyadic

/-- `n` times the power of two of `e`, over `den`, as numerator and denominator. -/
def scale (num den : Nat) (e : Int) : Nat × Nat :=
  if e ≥ 0 then (num * twoTo e.toNat, den) else (num, den * twoTo (-e).toNat)

def nearest (num den : Nat) : Dyadic :=
  if num == 0 then ⟨0, 0⟩
  else
    let guess : Int := (Nat.log2 num : Int) - Nat.log2 den - 52
    let (n, d) := scale num den (-guess)
    if n / d < twoTo 52 then
      let (n, d) := scale num den (1 - guess)
      ⟨roundDiv n d, guess - 1⟩
    else ⟨roundDiv n d, guess⟩

/-- The quotient of a fraction by a whole number, to the nearest fraction. -/
def dividedBy (x : Dyadic) (n : Nat) : Dyadic :=
  let (num, den) := scale x.mantissa n x.exponent
  nearest num den

/-- The fraction in decimal, with `places` digits behind the point. -/
def fixed (places : Nat) (x : Dyadic) : Bytes :=
  let (num, den) := scale (x.mantissa * tenTo places) 1 x.exponent
  let n := roundDiv num den
  let digits := Bytes.ofNat n
  let digits := List.replicate (places + 1 - digits.length) 0x30 ++ digits
  let whole := digits.length - places
  if places == 0 then digits else digits.take whole ++ [0x2E] ++ digits.drop whole

end Dyadic

/-! ## Phases -/

/-- A phase: its name, the nanoseconds it took together, and how often it ran. -/
structure Phase where
  name : Bytes
  total : Int64
  runs : Nat
  deriving Repr, DecidableEq

/-- The phases of a command. -/
structure Timing where
  phases : List Phase
  deriving Repr, DecidableEq

namespace Timing

def empty : Timing := ⟨[]⟩

def add (t : Timing) (name : Bytes) (nanos : Int64) : Timing :=
  if t.phases.any (·.name == name) then
    ⟨t.phases.map fun p => if p.name == name then ⟨name, p.total + nanos, p.runs + 1⟩ else p⟩
  else ⟨t.phases ++ [⟨name, nanos, 1⟩]⟩

def total (t : Timing) : Int64 := t.phases.foldl (fun sum p => sum + p.total) 0

def milliseconds (places : Nat) (nanos : Int64) : Bytes :=
  let size := nanos.toInt.natAbs
  let digits := ((Dyadic.nearest size 1).dividedBy 1000000).fixed places
  if nanos < 0 then 0x2D :: digits else digits

def row (name : Bytes) (nanos : Int64) : Bytes :=
  utf8 "  " ++ name ++ List.replicate (12 - (Bytes.runes name).length) Bytes.space ++ utf8 " " ++
    Bytes.padLeft (milliseconds 2 nanos) 9 ++ utf8 " ms"

def summary (t : Timing) : Bytes :=
  utf8 "timings:\n" ++
    t.phases.flatMap (fun p => row p.name p.total ++ utf8 "  (" ++ Bytes.ofNat p.runs ++ utf8 " runs)\n") ++
    row (utf8 "total") t.total ++ utf8 "\n"

end Timing

end Colloquy
