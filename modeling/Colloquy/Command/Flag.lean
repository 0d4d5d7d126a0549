import Colloquy.Text.Decimal
import Colloquy.Text.Quoted

/-! # Flags and arguments

How a command line is read. A flag starts with two dashes and takes its value behind an equals sign or
as the next argument; a truth flag needs none. Flags and other arguments may be mixed, and two dashes
alone end the flags. Truth flags may have a letter, and letters may stand together behind one dash.
-/

namespace Colloquy

/-! ## Values of flags

What can stand behind a flag: any text, a truth value, a 64-bit whole number or a duration. Whole numbers
may be written in base 2, 8, 10 or 16, with underscores between digits.
-/

/-- The kinds of values. -/
inductive ValueKind
  | text
  | truth
  | whole
  | duration
  deriving Repr, DecidableEq

/-- A value of a flag. -/
inductive FlagValue
  | text (t : Bytes)
  | truth (b : Bool)
  | whole (n : Int64)
  /-- In nanoseconds. -/
  | duration (n : Int)
  deriving Repr, DecidableEq

namespace FlagValue

def unreadable (reader : String) (t : Bytes) (problem : String) : Bytes :=
  utf8 "strconv." ++ utf8 reader ++ utf8 ": parsing " ++ Quoted.encode t ++ utf8 ": " ++ utf8 problem

def truthOf (t : Bytes) : Except Bytes Bool :=
  if ["1", "t", "T", "true", "TRUE", "True"].any fun w => utf8 w == t then .ok true
  else if ["0", "f", "F", "false", "FALSE", "False"].any fun w => utf8 w == t then .ok false
  else .error (unreadable "ParseBool" t "invalid syntax")

/-- The base that the front of a number gives, and the digits behind it. -/
def baseOf (t : Bytes) : Nat × Bytes :=
  match t with
  | 0x30 :: c :: d :: rest =>
    let c := Bytes.lowerByte c
    if c == 0x62 then (2, d :: rest)
    else if c == 0x6F then (8, d :: rest)
    else if c == 0x78 then (16, d :: rest)
    else (8, t.drop 1)
  | 0x30 :: rest => (8, rest)
  | _ => (10, t)

def digitOf? (b : UInt8) : Option Nat :=
  if Bytes.isDigit b then some (b.toNat - 0x30)
  else if Bytes.isLetter b then some ((Bytes.lowerByte b).toNat - 0x57)
  else none

/-- The number that digits spell; underscores are skipped. It is out of range as soon as the digits read
    so far are. -/
def magnitude (base : Nat) : (sum : Nat) → Bytes → Except String Nat
  | sum, [] => .ok sum
  | sum, b :: rest =>
    if b == 0x5F then magnitude base sum rest
    else match digitOf? b with
      | none => .error "invalid syntax"
      | some d =>
        if d ≥ base then .error "invalid syntax"
        else if sum * base + d ≥ wordCount then .error "value out of range"
        else magnitude base (sum * base + d) rest

/-- Whether each underscore stands between digits, where `afterDigit` tells whether a digit stands
    before the text. -/
def separatesDigits (isHex afterDigit : Bool) : Bytes → Bool
  | [] => true
  | b :: rest =>
    let isDigit := Bytes.isDigit b || (isHex && (Bytes.hexValue? b).isSome)
    if isDigit then separatesDigits isHex true rest
    else if b == 0x5F then
      afterDigit && (match rest with
        | [] => false
        | c :: _ => Bytes.isDigit c || (isHex && (Bytes.hexValue? c).isSome)) && separatesDigits isHex false rest
    else separatesDigits isHex false rest

/-- Whether the underscores of a number without sign are in their places. The front that gives the base
    counts as a digit. -/
def hasGoodSeparators (t : Bytes) : Bool :=
  let (base, digits) := baseOf t
  if base == 10 || (base == 8 && digits.length + 1 == t.length) then separatesDigits false false t
  else separatesDigits (base == 16) true digits

/-- The digits behind a sign, and whether the sign is a minus. -/
def signed (t : Bytes) : Bool × Bytes :=
  match t with
  | 0x2D :: digits => (true, digits)
  | 0x2B :: digits => (false, digits)
  | digits => (false, digits)

/-- The number of a text, or what is wrong with it. -/
def wholeNumber (t : Bytes) : Except String Int64 := do
  let (isNegative, digits) := signed t
  if digits.isEmpty then .error "invalid syntax"
  let (base, tail) := baseOf digits
  let size ← magnitude base 0 tail
  if digits.any (· == 0x5F) && !hasGoodSeparators digits then .error "invalid syntax"
  let n : Int := if isNegative then -size else size
  if fitsSigned n then return Int64.ofInt n else .error "value out of range"

def wholeOf (t : Bytes) : Except Bytes Int64 := (wholeNumber t).mapError (unreadable "ParseInt" t)

/-- The units of durations, in nanoseconds. -/
def units : List (String × Nat) :=
  [("ns", 1), ("us", 1000), ("µs", 1000), ("μs", 1000), ("ms", 1000000), ("s", 1000000000),
    ("m", 60000000000), ("h", 3600000000000)]

/-- A text in quotes, as messages about durations show it: control bytes below the space and bytes outside
    ASCII are written by their value. -/
def quotedDuration (t : Bytes) : Bytes :=
  [0x22] ++ t.flatMap (fun b =>
    if b == 0x22 || b == 0x5C then [0x5C, b]
    else if b < 0x20 || b ≥ 0x80 then utf8 "\\x" ++ Quoted.hex 2 b.toNat
    else [b]) ++ [0x22]

/-- What is wrong with a duration. -/
inductive DurationFault
  | invalid
  | missingUnit
  | unknownUnit (unit : Bytes)
  deriving Repr, DecidableEq

def DurationFault.message (t : Bytes) : DurationFault → Bytes
  | .invalid => utf8 "time: invalid duration " ++ quotedDuration t
  | .missingUnit => utf8 "time: missing unit in duration " ++ quotedDuration t
  | .unknownUnit unit =>
    utf8 "time: unknown unit " ++ quotedDuration unit ++ utf8 " in duration " ++ quotedDuration t

/-- The digits behind a point as a number, and the power of ten that divides it. Digits that would make the
    number too large are left out. -/
def fractionFrom : (number scale : Nat) → Bytes → Nat × Nat
  | number, scale, [] => (number, scale)
  | number, scale, b :: rest =>
    let longer := number * 10 + (b.toNat - 0x30)
    if number > (signedLimit - 1) / 10 || longer > signedLimit then (number, scale)
    else fractionFrom longer (scale * 10) rest

/-- The nanoseconds in a fraction of a unit, computed in doubles and without what is left of a
    nanosecond. -/
def fractionOf (unit : Nat) (places : Bytes) : Nat :=
  let (number, scale) := fractionFrom 0 1 places
  if number == 0 then 0
  else
    let count := nearestDouble number 1
    let each := nearestDouble unit scale
    let product := nearestDouble (count.1 * each.1) (count.2 * each.2)
    product.1 / product.2

/-- The nanoseconds of a sequence of numbers with units, added as 64-bit words; each step reads a byte at
    least. -/
def durationFrom : (fuel sum : Nat) → Bytes → Except DurationFault Nat
  | 0, sum, _ => .ok sum
  | _ + 1, sum, [] => .ok sum
  | fuel + 1, sum, t => do
    let whole := t.takeWhile Bytes.isDigit
    let rest := t.drop whole.length
    let hasPoint := rest.head? == some 0x2E
    let rest := if hasPoint then rest.drop 1 else rest
    let places := if hasPoint then rest.takeWhile Bytes.isDigit else []
    let rest := rest.drop places.length
    let count := (Bytes.toNat? whole).getD 0
    if count > signedLimit || (whole.isEmpty && places.isEmpty) then .error .invalid
    let unit := rest.takeWhile fun b => b != 0x2E && !Bytes.isDigit b
    if unit.isEmpty then .error .missingUnit
    match units.find? fun u => utf8 u.1 == unit with
    | none => .error (.unknownUnit unit)
    | some u =>
      let nanos := count * u.2 + fractionOf u.2 places
      let total := (sum + nanos) % wordCount
      if nanos > signedLimit || total > signedLimit then .error .invalid
      durationFrom fuel total (rest.drop unit.length)

def durationOf (t : Bytes) : Except Bytes Int :=
  let (isNegative, body) := signed t
  let result : Except DurationFault Int :=
    if body == utf8 "0" then .ok 0
    else if body.isEmpty then .error .invalid
    else match durationFrom (body.length + 1) 0 body with
      | .error f => .error f
      | .ok n => if isNegative then .ok (-n) else if n ≥ signedLimit then .error .invalid else .ok n
  result.mapError (DurationFault.message t)

def ofText (kind : ValueKind) (t : Bytes) : Except Bytes FlagValue :=
  match kind with
  | .text => .ok (.text t)
  | .truth => (truthOf t).map .truth
  | .whole => (wholeOf t).map .whole
  | .duration => (durationOf t).map .duration

end FlagValue

/-! ## Flags -/

/-- A flag of a command. Only truth flags have letters. -/
structure Flag where
  name : String
  kind : ValueKind
  default : FlagValue
  letter : Option Char := none
  deriving Repr, DecidableEq

namespace Flag

def text (name default : String) : Flag := { name, kind := .text, default := .text (utf8 default) }

/-- A truth flag, which is off unless given. -/
def truth (name : String) (letter : Option Char) : Flag :=
  { name, kind := .truth, default := .truth false, letter }

def whole (name : String) (default : Int64) : Flag := { name, kind := .whole, default := .whole default }

def shown (f : Flag) : Bytes :=
  match f.letter with
  | some c => utf8 ("-" ++ c.toString ++ ", --" ++ f.name)
  | none => utf8 ("--" ++ f.name)

end Flag

/-- What is wrong with a command line. -/
inductive ArgumentFault
  | badForm (argument : Bytes)
  | unknownFlag (name : Bytes)
  | unknownLetter (letter : UInt8) (group : Bytes)
  | missingValue (name : Bytes)
  | invalidValue (flag : Flag) (value cause : Bytes)
  deriving Repr, DecidableEq

/-- A letter in single quotes. A byte outside ASCII is shown by the first byte of its two-byte form. -/
def quotedLetter (b : UInt8) : Bytes :=
  if b == 0x27 || b == 0x5C then [0x27, 0x5C, b, 0x27]
  else if b == 0x22 then [0x27, 0x22, 0x27]
  else if b < 0x80 then [0x27] ++ Quoted.character b.toNat ++ [0x27]
  else [0x27] ++ Rune.encode (if b < 0xC0 then 0xC2 else 0xC3) ++ [0x27]

def ArgumentFault.message : ArgumentFault → Bytes
  | .badForm argument => utf8 "bad flag syntax: " ++ argument
  | .unknownFlag name => utf8 "unknown flag: --" ++ name
  | .unknownLetter letter group =>
    utf8 "unknown shorthand flag: " ++ quotedLetter letter ++ utf8 " in -" ++ group
  | .missingValue name => utf8 "flag needs an argument: --" ++ name
  | .invalidValue flag value cause =>
    utf8 "invalid argument " ++ Quoted.encode value ++ utf8 " for " ++ Quoted.encode flag.shown ++
      utf8 " flag: " ++ cause

/-- The flags that were given, later ones first, and the other arguments in order. -/
structure Arguments where
  given : List (String × FlagValue) := []
  rest : List Bytes := []
  deriving Repr, DecidableEq

namespace Arguments

def flag? (flags : List Flag) (name : Bytes) : Option Flag := flags.find? fun f => utf8 f.name == name

def set (a : Arguments) (f : Flag) (value : Bytes) : Except ArgumentFault Arguments :=
  match FlagValue.ofText f.kind value with
  | .ok v => .ok { a with given := (f.name, v) :: a.given }
  | .error cause => .error (.invalidValue f value cause)

/-- The start of arguments that are meant for a test run, and that a group of letters leaves alone. -/
def testRun : Bytes := utf8 "test."

/-- Set the truth flags of a group of letters; each step reads a letter. -/
def setLetters (flags : List Flag) : (fuel : Nat) → Arguments → Bytes → Except ArgumentFault Arguments
  | 0, a, _ => .ok a
  | _ + 1, a, [] => .ok a
  | fuel + 1, a, b :: rest =>
    if Bytes.startsWith (b :: rest) testRun then .ok a
    else match flags.find? fun f => f.letter.map (fun c => c.toNat) == some b.toNat with
    | none => .error (.unknownLetter b (b :: rest))
    | some f =>
      match rest with
      | 0x3D :: v :: value => a.set f (v :: value)
      | _ => (a.set f (utf8 "true")).bind fun a => setLetters flags fuel a rest

def parseFrom (flags : List Flag) : Arguments → List Bytes → Except ArgumentFault Arguments
  | a, [] => .ok { a with rest := a.rest.reverse }
  | a, argument :: others =>
    match argument with
    | 0x2D :: 0x2D :: [] => .ok { a with rest := a.rest.reverse ++ others }
    | 0x2D :: 0x2D :: body =>
      if body.head? == some 0x2D || body.head? == some 0x3D then .error (.badForm argument)
      else
        let name := body.takeWhile (· != 0x3D)
        match flag? flags name with
        | none => .error (.unknownFlag name)
        | some f =>
          if name.length < body.length then do
            parseFrom flags (← a.set f (body.drop (name.length + 1))) others
          else if f.kind == .truth then do parseFrom flags (← a.set f (utf8 "true")) others
          else match others with
            | value :: others => do parseFrom flags (← a.set f value) others
            | [] => .error (.missingValue name)
    | 0x2D :: b :: letters => do
      parseFrom flags (← setLetters flags (letters.length + 2) a (b :: letters)) others
    | _ => parseFrom flags { a with rest := argument :: a.rest } others

def parse (flags : List Flag) (arguments : List Bytes) : Except ArgumentFault Arguments :=
  parseFrom flags {} arguments

def value (a : Arguments) (f : Flag) : FlagValue :=
  ((a.given.find? fun g => g.1 == f.name).map (·.2)).getD f.default

def text (a : Arguments) (f : Flag) : Bytes :=
  match a.value f with
  | .text t => t
  | _ => []

def isSet (a : Arguments) (f : Flag) : Bool := a.value f == .truth true

def number (a : Arguments) (f : Flag) : Int64 :=
  match a.value f with
  | .whole n => n
  | _ => 0

end Arguments

end Colloquy
