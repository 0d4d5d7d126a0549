import Colloquy.Text.Bytes

/-! # Moments and durations

A moment is a count of nanoseconds since the start of 1970, in universal time. This module writes
moments as dates and clock times, and durations with their units.
-/

namespace Colloquy

abbrev Moment := Int

/-- A number with zeros before it up to `width` digits. -/
def zeroPadded (width n : Nat) : Bytes :=
  let digits := Bytes.ofNat n
  List.replicate (width - digits.length) 0x30 ++ digits

namespace Moment

def day (m : Moment) : Int := Int.fdiv m 86400000000000

def inDay (m : Moment) : Nat := (Int.fmod m 86400000000000).toNat

/-- Year, month and day of a day in the Gregorian calendar. Years are counted from March, so that the
    day that leap years add is the last one, and in eras of 400 years, which are equally long. -/
def civil (day : Int) : Int × Nat × Nat :=
  let shifted := day + 719468
  let era := Int.fdiv shifted 146097
  let ofEra := (shifted - era * 146097).toNat
  let year := (ofEra - ofEra / 1460 + ofEra / 36524 - ofEra / 146096) / 365
  let ofYear := ofEra - (365 * year + year / 4 - year / 100)
  let month := (5 * ofYear + 2) / 153
  let dayOfMonth := ofYear - (153 * month + 2) / 5 + 1
  let calendar := if month < 10 then month + 3 else month - 9
  (era * 400 + year + (if calendar ≤ 2 then 1 else 0), calendar, dayOfMonth)

/-- Hours, minutes, seconds and the first `places` digits of the fraction. -/
def clock (places : Nat) (m : Moment) : Bytes :=
  let n := m.inDay
  let s := n / 1000000000
  zeroPadded 2 (s / 3600) ++ utf8 ":" ++ zeroPadded 2 (s / 60 % 60) ++ utf8 ":" ++ zeroPadded 2 (s % 60) ++
    utf8 "." ++ (zeroPadded 9 (n % 1000000000)).take places

def stamp (m : Moment) : Bytes :=
  let (year, month, day) := civil m.day
  zeroPadded 4 year.toNat ++ utf8 "-" ++ zeroPadded 2 month ++ utf8 "-" ++ zeroPadded 2 day ++ utf8 "T" ++
    m.clock 6 ++ utf8 "Z"

end Moment

namespace Duration

/-- A fraction of `places` digits behind a point, without zeros at its end. -/
def fraction (places n : Nat) : Bytes :=
  let digits := Bytes.trimEndWhile (zeroPadded places n) (· == 0x30)
  if digits.isEmpty then [] else 0x2E :: digits

/-- A duration in nanoseconds, taken to the nearest microsecond. -/
def toMicroseconds (nanos : Nat) : Nat := (nanos + 500) / 1000 * 1000

/-- A duration with its units: the largest that fits below a second, hours to seconds above. -/
def render (nanos : Nat) : Bytes :=
  if nanos == 0 then utf8 "0s"
  else if nanos < 1000 then Bytes.ofNat nanos ++ utf8 "ns"
  else if nanos < 1000000 then Bytes.ofNat (nanos / 1000) ++ fraction 3 (nanos % 1000) ++ utf8 "µs"
  else if nanos < 1000000000 then
    Bytes.ofNat (nanos / 1000000) ++ fraction 6 (nanos % 1000000) ++ utf8 "ms"
  else
    let s := nanos / 1000000000
    let hours := if s ≥ 3600 then Bytes.ofNat (s / 3600) ++ utf8 "h" else []
    let minutes := if s ≥ 60 then Bytes.ofNat (s / 60 % 60) ++ utf8 "m" else []
    hours ++ minutes ++ Bytes.ofNat (s % 60) ++ fraction 9 (nanos % 1000000000) ++ utf8 "s"

end Duration

end Colloquy
