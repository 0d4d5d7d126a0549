import Colloquy.Yaml.Characters

/-! # Reading position

A cursor in the characters of a YAML text: what is unread of the stretches decoded so far, the place
reached, and how many line breaks were read since the last visible character. Who wants to look further
than the decoded stretches go has more of them decoded first, which shows the fault behind them, and which
also moves the window of characters at hand: it then starts at the place reached.
-/

namespace Colloquy.Yaml

def orderMark : Nat := 0xFEFF

/-- A reading position. -/
structure Cursor where
  /-- A bound on the steps of any loop over the characters of the text. -/
  size : Nat
  /-- The decoded characters that are unread. -/
  rest : List Nat
  /-- The characters that are not decoded. -/
  pending : Characters
  /-- Whether the window starts with a byte order mark. -/
  onOrderMark : Bool
  mark : Mark
  newlines : Nat
  deriving Repr, DecidableEq

abbrev Scan := StateT Cursor (Except Fault)

/-- Line feed, carriage return, next line, line separator, paragraph separator. -/
def isBreak (c : Nat) : Bool := c == 0x0A || c == 0x0D || c == 0x85 || c == 0x2028 || c == 0x2029

def isBlankChar (c : Nat) : Bool := c == 0x20 || c == 0x09

/-- A character of a name: letter, digit, underscore or hyphen. -/
def isNameChar (c : Nat) : Bool :=
  (0x30 ≤ c && c ≤ 0x39) || (0x41 ≤ c && c ≤ 0x5A) || (0x61 ≤ c && c ≤ 0x7A) || c == 0x5F || c == 0x2D

def hexDigit? (c : Nat) : Option Nat :=
  if 0x30 ≤ c && c ≤ 0x39 then some (c - 0x30)
  else if 0x41 ≤ c && c ≤ 0x46 then some (c - 0x37)
  else if 0x61 ≤ c && c ≤ 0x66 then some (c - 0x57)
  else none

/-- A line break, or the end of the text. -/
def isBreakEnd : Option Nat → Bool
  | some c => isBreak c
  | none => true

/-- A blank, a line break, or the end of the text. -/
def isBlankEnd : Option Nat → Bool
  | some c => isBlankChar c || isBreak c
  | none => true

/-- Whether the characters begin with a document marker: three times `c`, then white space or the
    end. -/
def startsMarker (c : Nat) : List Nat → Bool
  | c1 :: c2 :: c3 :: rest => c1 == c && c2 == c && c3 == c && isBlankEnd rest.head?
  | _ => false

namespace Cursor

def ofText (t : Bytes) : Cursor :=
  let chars := Characters.ofText t
  ⟨chars.size + 4, [], chars, false, ⟨0, 0, 0⟩, 0⟩

/-- The character `n` places ahead. -/
def peek (c : Cursor) (n : Nat) : Option Nat := c.rest[n]?

/-- The characters at hand when stretches are decoded until there are `n` of them, and the stretches
    left. -/
def decodeUntil (n : Nat) : List (List Nat) → List Nat → List Nat × List (List Nat)
  | [], rest => (rest, [])
  | s :: later, rest => if n ≤ rest.length then (rest, s :: later) else decodeUntil n later (rest ++ s)

/-- Decode until `n` characters are at hand, and the fault met on the way. Behind a fault the characters
    before it are at hand too. -/
def load (c : Cursor) (n : Nat) : Cursor × Option Problem :=
  let (rest, later) := decodeUntil n c.pending.stretches c.rest
  let fault := if n ≤ rest.length then none else c.pending.fault
  let rest := if fault.isSome then rest ++ c.pending.beforeFault else rest
  let pending := { c.pending with
    stretches := later
    beforeFault := if fault.isSome then [] else c.pending.beforeFault }
  ({ c with rest := rest, pending := pending, onOrderMark := rest.head? == some orderMark }, fault)

/-- Whether `n` characters are at hand. -/
def holds (c : Cursor) (n : Nat) : Bool := n ≤ (c.rest.take n).length

/-- Past one character that is not a line break. -/
def skip (c : Cursor) : Cursor :=
  { c with
    rest := c.rest.drop 1
    mark := { c.mark with index := c.mark.index + 1, column := c.mark.column + 1 }
    newlines := match c.rest with
      | x :: _ => if isBlankChar x then c.newlines else 0
      | [] => 0 }

/-- Past one line break, if there is one. A carriage return and a line feed are one break. -/
def skipBreak (c : Cursor) : Cursor :=
  let past (n : Nat) : Cursor :=
    { c with
      rest := c.rest.drop n
      mark := ⟨c.mark.index + n, c.mark.line + 1, 0⟩
      newlines := c.newlines + 1 }
  match c.rest with
  | 0x0D :: 0x0A :: _ => past 2
  | x :: _ => if isBreak x then past 1 else c
  | [] => c

/-- What a line break adds to a scalar: a line feed, except that the two Unicode separators stay. -/
def breakText (c : Cursor) : List Nat :=
  match c.rest with
  | x :: _ => if x == 0x2028 || x == 0x2029 then [x] else if isBreak x then [0x0A] else []
  | [] => []

end Cursor

namespace Scan

/-- Have `n` characters at hand, unless the text ends before. -/
def need (n : Nat) : Scan Unit := fun c =>
  if c.holds n then .ok ((), c)
  else match c.load n with
    | (c, none) => .ok ((), c)
    | (_, some p) => .error (.ofText p)

/-- Have `n` characters at hand, unless the text ends before; whether no fault came between. -/
def reach (n : Nat) : Scan Bool := fun c =>
  if c.holds n then .ok (true, c)
  else match c.load n with
    | (c, fault) => .ok (fault.isNone, c)

/-- Raise a fault of the token that starts at `context`. -/
def fail {α : Type} (p : Problem) (context : Mark) : Scan α := fun c =>
  .error (.ofToken p context c.mark)

/-- The character `n` places ahead. -/
def ahead (n : Nat) : Scan (Option Nat) := fun c => .ok (c.peek n, c)

def next : Scan (Option Nat) := ahead 0

def skip : Scan Unit := modify Cursor.skip

/-- Past one line break; what it adds to a scalar. -/
def lineBreak : Scan (List Nat) := fun c => .ok (c.breakText, c.skipBreak)

/-- The characters that satisfy `p` behind those read so far, which are in reverse. -/
def takeFrom (p : Nat → Bool) : (fuel : Nat) → List Nat → Scan (List Nat)
  | 0, acc => return acc.reverse
  | fuel + 1, acc => do
    match ← next with
    | some c =>
      if p c then
        skip
        need 1
        takeFrom p fuel (c :: acc)
      else return acc.reverse
    | none => return acc.reverse

/-- The characters that satisfy `p`, none of which is a line break, up to the first that does not, which
    is looked at. -/
def takeWhile (p : Nat → Bool) : Scan (List Nat) := do takeFrom p (← get).size []

def blanks : Scan Unit := do
  let _ ← takeWhile isBlankChar

/-- Past blanks and a comment, to the end of the line. -/
def comment : Scan Unit := do
  blanks
  if (← next) == some 0x23 then
    let _ ← takeWhile fun c => !isBreak c

end Scan

end Colloquy.Yaml
