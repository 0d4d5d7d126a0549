import Colloquy.Json.Basic

/-! # Reading JSON

The strict grammar: one value with nothing but white space around it, no control bytes in strings, no
leading zeros. Values may nest 10000 levels deep.
-/

namespace Colloquy.Json

def skipSpace (t : Bytes) : Bytes := t.dropWhile Bytes.isSpaceByte

/-- The literal of the string whose opening quotation mark stands before `t`, and what follows its
    closing one. -/
def stringBody? : Bytes → Option (Bytes × Bytes)
  | [] => none
  | 0x22 :: rest => some ([], rest)
  | 0x5C :: c :: rest =>
    if c == 0x75 then
      match rest with
      | h1 :: h2 :: h3 :: h4 :: tail =>
        if (hex4? [h1, h2, h3, h4]).isSome then
          (stringBody? tail).map fun r => (0x5C :: c :: h1 :: h2 :: h3 :: h4 :: r.1, r.2)
        else none
      | _ => none
    else if (utf8 "\"\\/bfnrt").any (· == c) then
      (stringBody? rest).map fun r => (0x5C :: c :: r.1, r.2)
    else none
  | b :: rest => if b < 0x20 || b == 0x5C then none else (stringBody? rest).map fun r => (b :: r.1, r.2)

/-- The digits at the start of a text, at least one of them. -/
def digits? (t : Bytes) : Option (Bytes × Bytes) :=
  let ds := t.takeWhile Bytes.isDigit
  if ds.isEmpty then none else some (ds, t.dropWhile Bytes.isDigit)

/-- The part of a number before its point: a zero alone, or digits that start with another digit. -/
def integerPart? (t : Bytes) : Option (Bytes × Bytes) :=
  match t with
  | 0x30 :: rest => some ([0x30], rest)
  | _ => digits? t

/-- The fraction of a number, if it has one. -/
def fraction? (t : Bytes) : Option (Bytes × Bytes) :=
  match t with
  | 0x2E :: rest => (digits? rest).map fun r => (0x2E :: r.1, r.2)
  | _ => some ([], t)

/-- The exponent of a number, if it has one. -/
def exponent? (t : Bytes) : Option (Bytes × Bytes) :=
  match t with
  | e :: rest =>
    if e == 0x65 || e == 0x45 then
      match rest with
      | sign :: tail =>
        if sign == 0x2B || sign == 0x2D then (digits? tail).map fun r => (e :: sign :: r.1, r.2)
        else (digits? rest).map fun r => (e :: r.1, r.2)
      | [] => none
    else some ([], t)
  | [] => some ([], t)

def number? (t : Bytes) : Option (Bytes × Bytes) := do
  let (sign, t) := match t with
    | 0x2D :: rest => ([(0x2D : UInt8)], rest)
    | _ => ([], t)
  let (whole, t) ← integerPart? t
  let (frac, t) ← fraction? t
  let (exp, t) ← exponent? t
  return (sign ++ whole ++ frac ++ exp, t)

def maxDepth : Nat := 10000

mutual
/-- The value at the start of a text, inside `depth` arrays and objects. Each call reads at least one
    byte, so the length of the text is fuel enough. -/
def valueAt (fuel depth : Nat) (t : Bytes) : Option (Json × Bytes) :=
  match fuel with
  | 0 => none
  | fuel + 1 =>
    match skipSpace t with
    | [] => none
    | 0x22 :: rest => (stringBody? rest).map fun r => (.string r.1, r.2)
    | 0x5B :: rest =>
      if depth ≥ maxDepth then none
      else match skipSpace rest with
        | 0x5D :: tail => some (.array [], tail)
        | _ => (itemsAt fuel (depth + 1) rest).map fun r => (.array r.1, r.2)
    | 0x7B :: rest =>
      if depth ≥ maxDepth then none
      else match skipSpace rest with
        | 0x7D :: tail => some (.object [], tail)
        | _ => (membersAt fuel (depth + 1) rest).map fun r => (.object r.1, r.2)
    | t =>
      match Bytes.after? t (utf8 "null"), Bytes.after? t (utf8 "true"), Bytes.after? t (utf8 "false") with
      | some rest, _, _ => some (.null, rest)
      | _, some rest, _ => some (.bool true, rest)
      | _, _, some rest => some (.bool false, rest)
      | _, _, _ => (number? t).map fun r => (.number r.1, r.2)

def itemsAt (fuel depth : Nat) (t : Bytes) : Option (List Json × Bytes) :=
  match fuel with
  | 0 => none
  | fuel + 1 =>
    match valueAt fuel depth t with
    | none => none
    | some (item, rest) =>
      match skipSpace rest with
      | 0x2C :: tail => (itemsAt fuel depth tail).map fun r => (item :: r.1, r.2)
      | 0x5D :: tail => some ([item], tail)
      | _ => none

def membersAt (fuel depth : Nat) (t : Bytes) : Option (List (Bytes × Json) × Bytes) :=
  match fuel with
  | 0 => none
  | fuel + 1 =>
    match skipSpace t with
    | 0x22 :: rest =>
      match stringBody? rest with
      | none => none
      | some (name, rest) =>
        match skipSpace rest with
        | 0x3A :: rest =>
          match valueAt fuel depth rest with
          | none => none
          | some (value, rest) =>
            match skipSpace rest with
            | 0x2C :: tail => (membersAt fuel depth tail).map fun r => ((name, value) :: r.1, r.2)
            | 0x7D :: tail => some ([(name, value)], tail)
            | _ => none
        | _ => none
    | _ => none
end

/-- The value that a text holds, with nothing else in it. -/
def parse? (t : Bytes) : Option Json :=
  match valueAt (2 * t.length + 2) 0 t with
  | some (j, rest) => if (skipSpace rest).isEmpty then some j else none
  | none => none

end Colloquy.Json
