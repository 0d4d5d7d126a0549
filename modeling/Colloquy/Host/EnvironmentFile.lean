import Colloquy.Host.Environment
import Colloquy.Text.Space

/-! # Environment files

A file of variables, one `NAME=value` after the other, which adds to the environment what is not set yet.
Values may be quoted; values that are not in single quotes may refer to variables set before them in the
file. A file with a fault adds nothing.
-/

namespace Colloquy.EnvironmentFile

def isGap (code : Nat) : Bool :=
  code == 0x09 || code == 0x0B || code == 0x0C || code == 0x0D || code == 0x20 || code == 0x85 || code == 0xA0

/-- The text without space at its start. -/
def trimGaps (t : Bytes) : Bytes := t.drop (Bytes.widthOf ((Bytes.runes t).takeWhile fun r => isGap r.code))

/-- The text without space at its end. -/
def trimGapsEnd (t : Bytes) : Bytes :=
  t.take (Bytes.widthOf ((Bytes.runes t).reverse.dropWhile fun r => isGap r.code))

/-- A byte, taken as a code point, that a name may hold. -/
def isNameByte (b : UInt8) : Bool :=
  Bytes.isLetter b || Bytes.isDigit b || b == 0x5F || b == 0x2E || b == 0xAA || b == 0xB5 || b == 0xBA ||
    b == 0xB2 || b == 0xB3 || b == 0xB9 || (0xBC ≤ b && b ≤ 0xBE) || (0xC0 ≤ b && b != 0xD7 && b != 0xF7)

/-- The text from the next statement on; blank lines and comments are skipped. -/
def statement? : (fuel : Nat) → Bytes → Option Bytes
  | 0, _ => none
  | fuel + 1, t =>
    match Bytes.trimStart t with
    | [] => none
    | 0x23 :: rest => statement? fuel (rest.dropWhile (· != Bytes.lf))
    | t => some t

/-- The text behind the word that may introduce a statement. -/
def withoutExport (t : Bytes) : Bytes :=
  match Bytes.after? t (utf8 "export") with
  | some rest => if (trimGaps rest).length < rest.length then trimGaps rest else t
  | none => t

/-- The name at the start of a statement, and what stands behind its equals sign or colon. A statement
    without either has the empty name; a name with other bytes is a fault, and so is the introducing word
    with nothing behind it. -/
def name? (t : Bytes) : Option (Bytes × Bytes) :=
  let t := withoutExport (trimGaps t)
  let name := t.takeWhile fun b => isNameByte b || isGap b.toNat
  if t.isEmpty then none
  else match t.drop name.length with
    | [] => some ([], trimGaps t)
    | b :: rest => if b == 0x3D || b == 0x3A then some (Bytes.trimEnd name, trimGaps rest) else none

/-- Replace references to variables, of which `skip` bytes are already read. A backslash keeps a dollar
    sign. -/
def expandFrom (vars : Environment) : (skip : Nat) → Bytes → Bytes
  | _, [] => []
  | skip + 1, _ :: rest => expandFrom vars skip rest
  | 0, b :: rest =>
    let isEscaped := b == 0x5C && rest.head? == some 0x24
    if b == 0x24 || isEscaped then
      let body := if isEscaped then rest.drop 1 else rest
      let opening := (if body.head? == some 0x28 then 1 else 0)
      let opening := opening + (if (body.drop opening).head? == some 0x7B then 1 else 0)
      let name := (body.drop opening).takeWhile fun c =>
        (0x41 ≤ c && c ≤ 0x5A) || Bytes.isDigit c || c == 0x5F
      let closing := if (body.drop (opening + name.length)).head? == some 0x7D then 1 else 0
      let length := (if isEscaped then 1 else 0) + opening + name.length + closing
      if isEscaped then rest.take length ++ expandFrom vars length rest
      else if name.isEmpty then b :: rest.take length ++ expandFrom vars length rest
      else
        let value := ((List.find? (fun v : Bytes × Bytes => v.1 == name) vars).map (·.2)).getD []
        value ++ expandFrom vars length rest
    else b :: expandFrom vars 0 rest

def breakEscapes : Bytes → Bytes
  | 0x5C :: c :: rest =>
    if c == 0x6E then Bytes.lf :: breakEscapes rest
    else if c == 0x72 then Bytes.cr :: breakEscapes rest
    else 0x5C :: c :: breakEscapes rest
  | c :: rest => c :: breakEscapes rest
  | [] => []

/-- Drop the backslash before each character but a dollar sign. -/
def plainEscapes : Bytes → Bytes
  | 0x5C :: c :: rest => if c == 0x24 then 0x5C :: c :: plainEscapes rest else c :: plainEscapes rest
  | c :: rest => c :: plainEscapes rest
  | [] => []

def closing? (quote previous : UInt8) : Bytes → Option Nat
  | [] => none
  | b :: rest => if b == quote && previous != 0x5C then some 0 else (closing? quote b rest).map (· + 1)

/-- What stands before the last sign for a comment that space sets off, if there is one. -/
def beforeComment? (previous : Nat) : List Nat → Option (List Nat)
  | [] => none
  | c :: rest =>
    match beforeComment? c rest with
    | some kept => some (c :: kept)
    | none => if c == 0x23 && isGap previous then some [] else none

/-- The value at the start of a text, and what follows it; nothing when a quote is not closed. -/
def value? (vars : Environment) (t : Bytes) : Option (Bytes × Bytes) :=
  match t with
  | [] => some ([], [])
  | q :: body =>
    if q == 0x22 || q == 0x27 then do
      let n ← closing? q q body
      let inner := Bytes.trimEndWhile ((body.take n).dropWhile (· == q)) (· == q)
      let value := if q == 0x22 then expandFrom vars 0 (plainEscapes (breakEscapes inner)) else inner
      return (value, body.drop (n + 1))
    else
      let line := t.takeWhile fun b => b != Bytes.lf && b != Bytes.cr
      let codes := Bytes.codes line
      let kept := Bytes.ofCodes ((beforeComment? 0 codes).getD codes)
      some (expandFrom vars 0 (trimGapsEnd (trimGaps kept)), t.drop line.length)

/-- Read statements onto `vars`; each step reads a byte at least. -/
def collect : (fuel : Nat) → Environment → Bytes → Option Environment
  | 0, vars, _ => some vars
  | fuel + 1, vars, t =>
    match statement? (t.length + 1) t with
    | none => some vars
    | some t => do
      let (name, rest) ← name? t
      let (value, rest) ← value? vars rest
      collect fuel ((name, value) :: vars.filter fun v => v.1 != name) rest

def parse? (t : Bytes) : Option Environment :=
  let t := Bytes.replaceAll t [Bytes.cr, Bytes.lf] [Bytes.lf]
  collect (t.length + 1) [] t

def fileName : Bytes := utf8 ".env"

/-- Whether a variable can be set: it has a name, and no zero byte in its value. -/
def isSettable (variable_ : Bytes × Bytes) : Bool := !variable_.1.isEmpty && !variable_.2.any (· == 0)

/-- The host with the variables of the file in the current directory. -/
def load (host : Host) : Host :=
  match host.read fileName with
  | .error _ => host
  | .ok t => { host with env := host.env ++ ((parse? t).getD []).filter isSettable }

end Colloquy.EnvironmentFile
