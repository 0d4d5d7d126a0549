import Colloquy.Yaml.Fault

/-! # The characters of a YAML text

A YAML text is UTF-8, or UTF-16 after a byte order mark. It is decoded in stretches of 512 bytes, each
starting at the first byte that is not decoded yet. A fault in a stretch shows as soon as any
character of the stretch is looked at, so the characters that can be used are those of the sound
stretches before it, and those before the fault only for a reader who did not mind it.
-/

namespace Colloquy.Yaml

/-- The form in which the characters are written. -/
inductive Encoding
  | utf8
  | littleEndian
  | bigEndian
  deriving Repr, DecidableEq

/-- The characters of a text. -/
structure Characters where
  /-- The sound stretches. -/
  stretches : List (List Nat)
  /-- The characters of the faulty stretch that stand before the fault. -/
  beforeFault : List Nat
  fault : Option Problem
  deriving Repr, DecidableEq

namespace Characters

/-- What decoding the next character of a stretch gives. -/
inductive Step
  /-- A character and its width in bytes. -/
  | char (code width : Nat)
  /-- The stretch ends inside a character. -/
  | partialChar (atEnd : Problem)
  /-- A fault. -/
  | bad (p : Problem)

def isAllowed (code : Nat) : Bool :=
  code == 0x09 || code == 0x0A || code == 0x0D || (0x20 ≤ code && code ≤ 0x7E) || code == 0x85 ||
  (0xA0 ≤ code && code ≤ 0xD7FF) || (0xE000 ≤ code && code ≤ 0xFFFD) ||
  (0x10000 ≤ code && code ≤ 0x10FFFF)

/-- The payload of trailing bytes, added to that of the bytes before. -/
def trailing (acc : Nat) : Bytes → Option Nat
  | [] => some acc
  | b :: rest => if b.toNat / 64 == 2 then trailing (acc * 64 + b.toNat % 64) rest else none

def stepUtf8 (lead : UInt8) (rest : Bytes) : Step :=
  let n := lead.toNat
  let width := if n < 0x80 then 1 else if n / 32 == 6 then 2 else if n / 16 == 14 then 3
    else if n / 8 == 30 then 4 else 0
  if width == 0 then .bad .leadingOctet
  else if rest.length < width - 1 then .partialChar .incompleteOctets
  else
    let head := if width == 1 then n else if width == 2 then n % 32 else if width == 3 then n % 16 else n % 8
    match trailing head (rest.take (width - 1)) with
    | none => .bad .trailingOctet
    | some code =>
      let least := if width == 1 then 0 else if width == 2 then 0x80 else if width == 3 then 0x800 else 0x10000
      if code < least then .bad .overlong
      else if (0xD800 ≤ code && code ≤ 0xDFFF) || 0x10FFFF < code then .bad .notCharacter
      else .char code width

/-- One UTF-16 character; `unit` reads two bytes. -/
def stepUtf16 (unit : UInt8 → UInt8 → Nat) : Bytes → Step
  | a :: b :: rest =>
    let high := unit a b
    if high / 0x400 == 0x37 then .bad .lowSurrogate
    else if high / 0x400 == 0x36 then
      match rest with
      | c :: d :: _ =>
        let low := unit c d
        if low / 0x400 == 0x37 then .char (0x10000 + high % 0x400 * 0x400 + low % 0x400) 4
        else .bad .noLowSurrogate
      | _ => .partialChar .incompletePair
    else .char high 2
  | _ => .partialChar .incompleteUnit

/-- One character of a non-empty stretch. -/
def step (e : Encoding) (t : Bytes) : Step :=
  match e, t with
  | .utf8, b :: rest => stepUtf8 b rest
  | .littleEndian, t => stepUtf16 (fun a b => a.toNat + b.toNat * 256) t
  | .bigEndian, t => stepUtf16 (fun a b => a.toNat * 256 + b.toNat) t
  | .utf8, [] => .partialChar .incompleteOctets

/-- Why decoding a stretch stopped. -/
inductive Stop
  /-- At its end. -/
  | complete
  /-- Inside a character that goes on in the next stretch; what is wrong if there is none. -/
  | inside (atEnd : Problem)
  /-- At a fault. -/
  | fault (p : Problem)

/-- The characters of one stretch behind those read so far, which are in reverse, the bytes left and why
    decoding stopped. -/
def stretch (e : Encoding) : (fuel : Nat) → Bytes → List Nat → List Nat × Bytes × Stop
  | 0, t, acc => (acc.reverse, t, .complete)
  | _ + 1, [], acc => (acc.reverse, [], .complete)
  | fuel + 1, t, acc =>
    match step e t with
    | .bad p => (acc.reverse, t, .fault p)
    | .partialChar p => (acc.reverse, t, .inside p)
    | .char code width =>
      if isAllowed code then stretch e fuel (t.drop width) (code :: acc)
      else (acc.reverse, t, .fault .control)

/-- The characters of all stretches from `now` on, which is undecoded; `rest` follows it, and `room` is
    how many bytes a stretch holds. -/
def collect (e : Encoding) (room : Nat) : (fuel : Nat) → (now rest : Bytes) → Characters
  | 0, _, _ => ⟨[], [], none⟩
  | fuel + 1, now, rest =>
    match stretch e (now.length + 1) now [] with
    | (chars, _, .fault p) => ⟨[], chars, some p⟩
    | (chars, left, stop) =>
      if rest.isEmpty then
        match stop with
        | .inside p => ⟨[chars], [], some p⟩
        | _ => ⟨[chars], [], none⟩
      else
        let taken := room - left.length
        let more := collect e room fuel (left ++ rest.take taken) (rest.drop taken)
        { more with stretches := chars :: more.stretches }

def stretchBytes : Nat := 512

/-- The encoding that the first bytes announce, and how many bytes announce it. -/
def announced : Bytes → Encoding × Nat
  | 0xFF :: 0xFE :: _ => (.littleEndian, 2)
  | 0xFE :: 0xFF :: _ => (.bigEndian, 2)
  | 0xEF :: 0xBB :: 0xBF :: _ => (.utf8, 3)
  | _ => (.utf8, 0)

/-- The characters of a text. The byte order mark counts toward the first stretch. -/
def ofText (t : Bytes) : Characters :=
  let (e, mark) := announced t
  collect e stretchBytes (t.length + 1) ((t.take stretchBytes).drop mark) (t.drop stretchBytes)

def size (c : Characters) : Nat := total (c.stretches.map List.length) + c.beforeFault.length

end Characters

end Colloquy.Yaml
