import Colloquy.Text.Decimal
import Colloquy.Time.Written

/-! # TOML numbers and dates

Which texts are TOML integers, floats and dates. Underscores may stand between digits, leading zeros
are not allowed, integers have 64 bits, and floats must not overflow a double.
-/

namespace Colloquy.Toml

/-- Whether every underscore follows a digit and the text ends in a digit; `accept` says whether the
    byte before was one. -/
def underscoresOk (accept : Bool) : Bytes → Bool
  | [] => accept
  | b :: rest => (b != 0x5F || accept) && underscoresOk (Bytes.hexValue? b).isSome rest

/-- The text without underscores. -/
def digitsOf (t : Bytes) : Bytes := t.filter (· != 0x5F)

/-- Whether a number starts with a zero that does not belong there. -/
def hasLeadingZero (t : Bytes) : Bool :=
  match t with
  | 0x30 :: b :: _ => !(b == 0x62 || b == 0x6F || b == 0x78)
  | 0x2B :: 0x30 :: _ :: _ => true
  | 0x2D :: 0x30 :: _ :: _ => true
  | _ => false

/-- The number that digits of a base spell, with underscores between them. -/
def grouped? (base : Nat) (t : Bytes) : Option Nat :=
  if underscoresOk false t then Bytes.inBase? base (digitsOf t) else none

/-- The size of a number, in the base that its first letters name. -/
def magnitude? (t : Bytes) : Option Nat :=
  match t with
  | 0x30 :: 0x62 :: rest => grouped? 2 rest
  | 0x30 :: 0x6F :: rest => grouped? 8 rest
  | 0x30 :: 0x78 :: rest => grouped? 16 rest
  | _ => grouped? 10 t

def signed? (t : Bytes) : Option Int :=
  match t with
  | 0x2D :: rest => (magnitude? rest).map fun n => -(n : Int)
  | 0x2B :: rest => (magnitude? rest).map Int.ofNat
  | _ => (magnitude? t).map Int.ofNat

def integer? (t : Bytes) : Option Int :=
  if hasLeadingZero t then none else (signed? t).filter fun n => fitsSigned n

/-- The words for infinity and not-a-number. -/
def specialFloats : List Bytes :=
  [utf8 "inf", utf8 "+inf", utf8 "-inf", utf8 "nan", utf8 "+nan", utf8 "-nan"]

/-- Whether a text is a float: a special word, or a number with a fraction or an exponent. -/
def isFloat (t : Bytes) : Bool :=
  if specialFloats.any (· == t) then true
  else
    let (mantissa, exponent) := Decimal.cutWhere (fun b => b == 0x65 || b == 0x45) t
    let (whole, fraction) := Decimal.cutWhere (· == 0x2E) mantissa
    let partOk (p : Bytes) : Bool := underscoresOk false p
    let wholeDigits := digitsOf (Decimal.unsigned whole)
    let fractionDigits := digitsOf (fraction.getD [])
    let exponentDigits := digitsOf (Decimal.unsigned (exponent.getD [0x30]))
    (fraction.isSome || exponent.isSome) && partOk whole && (fraction.map partOk).getD true &&
      (exponent.map (fun e => partOk e || partOk (Decimal.unsigned e))).getD true &&
      !hasLeadingZero whole && (Bytes.inBase? 10 wholeDigits).isSome &&
      (fraction.isNone || (Bytes.inBase? 10 fractionDigits).isSome) && (Bytes.inBase? 10 exponentDigits).isSome &&
      (let e : Int := ((Bytes.inBase? 10 exponentDigits).getD 0 : Nat)
       let e := if (exponent.getD []).head? == some 0x2D then -e else e
       (Decimal.mk ((Bytes.inBase? 10 (wholeDigits ++ fractionDigits)).getD 0) (e - fractionDigits.length)).fitsDouble)

/-- Whether a text is a date, a time of day, or both, then perhaps with a time zone. A time of day by itself
    does not start with a single zero, which would be a number. -/
def isDatetime (t : Bytes) : Bool :=
  let t := t.map fun b => if b == 0x7A then 0x5A else if b == 0x74 || b == 0x20 then 0x54 else b
  match Written.afterDate? t with
  | some [] => true
  | some (0x54 :: rest) =>
    (match Written.afterTime? rest with
      | some zone => zone.isEmpty || Written.isZone zone
      | none => false)
  | some _ => false
  | none => !Bytes.startsWith t [0x30, 0x3A] && Written.afterTime? t == some []

end Colloquy.Toml
