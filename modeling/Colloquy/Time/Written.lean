import Colloquy.Text.Bytes

/-! # Written dates and times

Which texts are dates, times of day and offsets of time zones. Each reader gives what follows the part
that it reads.
-/

namespace Colloquy.Written

/-- The number that exactly `n` digits in front spell, and what follows them. -/
def fixedDigits? (n : Nat) (t : Bytes) : Option (Nat × Bytes) :=
  let front := t.take n
  if front.length == n then (Bytes.toNat? front).map fun v => (v, t.drop n) else none

def daysIn (year month : Nat) : Nat :=
  if month == 2 then (if year % 4 == 0 && (year % 100 != 0 || year % 400 == 0) then 29 else 28)
  else if month == 4 || month == 6 || month == 9 || month == 11 then 30
  else 31

def afterDate? (t : Bytes) : Option Bytes := do
  let (year, t) ← fixedDigits? 4 t
  let t ← Bytes.after? t [0x2D]
  let (month, t) ← fixedDigits? 2 t
  let t ← Bytes.after? t [0x2D]
  let (day, t) ← fixedDigits? 2 t
  if 1 ≤ month && month ≤ 12 && 1 ≤ day && day ≤ daysIn year month then some t else none

/-- What follows a fraction of a second: a point or a comma, and digits. Without one nothing is read. -/
def afterFraction (t : Bytes) : Bytes :=
  match t with
  | mark :: b :: rest =>
    if (mark == 0x2E || mark == 0x2C) && Bytes.isDigit b then rest.dropWhile Bytes.isDigit else t
  | _ => t

/-- What follows a time of day. The hour may have a single digit. -/
def afterTime? (t : Bytes) : Option Bytes := do
  let (hour, t) ← (fixedDigits? 2 t).or (fixedDigits? 1 t)
  let t ← Bytes.after? t [0x3A]
  let (minute, t) ← fixedDigits? 2 t
  let t ← Bytes.after? t [0x3A]
  let (second, t) ← fixedDigits? 2 t
  if 24 ≤ hour || 60 ≤ minute || 60 ≤ second then none else some (afterFraction t)

/-- Whether a text is the offset of a time zone: the letter `Z`, or a sign, hours and minutes. -/
def isZone (t : Bytes) : Bool :=
  match t with
  | [] => false
  | [0x5A] => true
  | sign :: rest =>
    (sign == 0x2B || sign == 0x2D) &&
      (match fixedDigits? 2 rest with
        | some (hours, 0x3A :: rest) =>
          (match fixedDigits? 2 rest with
            | some (minutes, []) => hours ≤ 24 && minutes ≤ 60
            | _ => false)
        | _ => false)

/-- Whether a text is a moment: a date, the letter `T`, a time of day and the offset of a time zone. -/
def isMoment (t : Bytes) : Bool :=
  match afterDate? t with
  | some (0x54 :: rest) => ((afterTime? rest).map isZone).getD false
  | _ => false

end Colloquy.Written
