import Colloquy.Text.Space
import Colloquy.Toml.Number

/-! # TOML statements

A TOML text as a list of statements: table headers and assignments. Whether the statements agree with
each other is not looked at here.
-/

namespace Colloquy.Toml

abbrev Key := List Bytes

/-- A value as it is written. -/
inductive Value
  | integer (n : Int)
  | float
  | bool (b : Bool)
  | text (t : Bytes)
  | datetime
  | array (items : List Value)
  | inlineTable (entries : List (Key × Value))
  deriving Repr, Inhabited

/-- One statement. -/
inductive Statement
  | table (key : Key)
  | arrayTable (key : Key)
  | assign (key : Key) (value : Value)
  deriving Repr

abbrev Reader := StateT Bytes Option

namespace Reader

def peek : Reader (Option UInt8) := fun t => some (t.head?, t)

/-- Past `n` bytes. -/
def skip (n : Nat) : Reader Unit := fun t => some ((), t.drop n)

def fail {α : Type} : Reader α := fun _ => none

/-- The bytes for which `p` holds. -/
def takeWhile (p : UInt8 → Bool) : Reader Bytes := fun t => some (t.takeWhile p, t.dropWhile p)

def blanks : Reader Unit := do
  let _ ← takeWhile Bytes.isBlankByte

/-- Past `head`, which must follow. -/
def expect (head : Bytes) : Reader Unit := fun t => (Bytes.after? t head).map fun rest => ((), rest)

/-- Past `head`, if it follows; whether it did. -/
def accept (head : Bytes) : Reader Bool := fun t =>
  match Bytes.after? t head with
  | some rest => some (true, rest)
  | none => some (false, t)

/-- A byte of a key that needs no quotes. -/
def isBare (b : UInt8) : Bool := Bytes.isLetter b || Bytes.isDigit b || b == 0x5F || b == 0x2D

def isNewline (b : UInt8) : Bool := b == Bytes.lf || b == Bytes.cr

/-- Past a comment, if one starts here, to the end of its line. -/
def comment : Reader Unit := do
  if (← peek) == some 0x23 then
    let _ ← takeWhile fun b => !isNewline b

/-- Past white space, line ends and comments. -/
def space : (fuel : Nat) → Reader Unit
  | 0 => return ()
  | fuel + 1 => do
    let _ ← takeWhile Bytes.isSpaceByte
    if (← peek) == some 0x23 then
      comment
      space fuel

def shortEscape? (b : UInt8) : Option Nat :=
  if b == 0x62 then some 0x08
  else if b == 0x74 then some 0x09
  else if b == 0x6E then some 0x0A
  else if b == 0x66 then some 0x0C
  else if b == 0x72 then some 0x0D
  else if b == 0x22 || b == 0x5C then some b.toNat
  else none

/-- The character of `n` hexadecimal digits. -/
def hexEscape (n : Nat) : Reader Bytes := fun t =>
  let front := t.take n
  match (if front.length == n then Bytes.inBase? 16 front else none) with
  | some code =>
    if (0xD800 ≤ code && code ≤ 0xDFFF) || 0x10FFFF < code then none
    else some (Rune.encode code, t.drop n)
  | none => none

/-- One escape, behind its backslash. -/
def escape : Reader Bytes := do
  match ← peek with
  | some b =>
    match shortEscape? b with
    | some code =>
      skip 1
      return [code.toUInt8]
    | none =>
      if b == 0x75 then
        skip 1
        hexEscape 4
      else if b == 0x55 then
        skip 1
        hexEscape 8
      else fail
  | none => fail

/-- A string in double quotes on one line, behind its first quote. -/
def basic : (fuel : Nat) → Bytes → Reader Bytes
  | 0, _ => fail
  | fuel + 1, acc => do
    match ← peek with
    | none => fail
    | some b =>
      skip 1
      if b == 0x22 then return acc.reverse
      else if isNewline b then fail
      else if b == 0x5C then
        let piece ← escape
        basic fuel (piece.reverse ++ acc)
      else basic fuel (b :: acc)

/-- A string in single quotes on one line, behind its first quote. -/
def literal : Reader Bytes := do
  let t ← takeWhile fun b => b != 0x27 && !isNewline b
  expect [0x27]
  return t

/-- Whether a backslash with only white space behind it ends its line; what follows that space. -/
def lineEscape? (t : Bytes) : Option Bytes :=
  let blank := t.takeWhile Bytes.isSpaceByte
  if blank.any (· == Bytes.lf) then some (t.drop blank.length) else none

/-- How many of the quotes that end a string in three quotes are its own: at most two, or three behind a
    written backslash. -/
def ownQuotes (quotes : Nat) (afterBackslash : Bool) : Nat :=
  if afterBackslash && quotes == 6 then 3 else min (quotes - 3) 2

/-- A string in three quotes, behind the first three. `afterBackslash` says whether the character before
    is a backslash that an escape stands for. -/
def multiline (quote : UInt8) (escapes : Bool) : (fuel : Nat) → (afterBackslash : Bool) → Bytes → Reader Bytes
  | 0, _, _ => fail
  | fuel + 1, afterBackslash, acc => do
    let t ← get
    match t with
    | [] => fail
    | b :: rest =>
      if b == quote then
        let quotes := (t.takeWhile (· == quote)).length
        if quotes < 3 then
          skip quotes
          multiline quote escapes fuel false (List.replicate quotes quote ++ acc)
        else
          let own := ownQuotes quotes afterBackslash
          skip (own + 3)
          return (List.replicate own quote ++ acc).reverse
      else if escapes && b == 0x5C then
        match lineEscape? rest with
        | some after =>
          set after
          multiline quote escapes fuel false acc
        | none =>
          skip 1
          let piece ← escape
          multiline quote escapes fuel (rest.head? == some 0x5C) (piece.reverse ++ acc)
      else
        skip 1
        multiline quote escapes fuel false (b :: acc)

/-- A line end right behind the opening quotes does not count. -/
def firstNewline : Reader Unit := do
  if !(← accept [Bytes.cr, Bytes.lf]) then
    let _ ← accept [Bytes.lf]

def string : Reader Bytes := do
  let fuel := (← get).length + 1
  if ← accept [0x22, 0x22, 0x22] then
    firstNewline
    multiline 0x22 true fuel false []
  else if ← accept [0x27, 0x27, 0x27] then
    firstNewline
    multiline 0x27 false fuel false []
  else if ← accept [0x22] then basic fuel []
  else
    expect [0x27]
    literal

def keyPart : Reader Bytes := do
  blanks
  let fuel := (← get).length + 1
  if ← accept [0x22] then basic fuel []
  else if ← accept [0x27] then literal
  else
    let part ← takeWhile isBare
    if part.isEmpty then fail else return part

def key : (fuel : Nat) → Reader Key
  | 0 => fail
  | fuel + 1 => do
    let part ← keyPart
    blanks
    if ← accept [0x2E] then return part :: (← key fuel)
    else return [part]

def isNumberByte (b : UInt8) : Bool :=
  isBare b || b == 0x2B || b == 0x2E || b == 0x3A

/-- A number, a date or a word. A date may have a space before its time. -/
def scalar : Reader Value := do
  let word ← takeWhile isNumberByte
  let rest ← get
  let word ←
    if (Written.afterDate? word) == some [] && (rest.head? == some Bytes.space) &&
        ((rest.drop 1).head?.map Bytes.isDigit).getD false then do
      skip 1
      let time ← takeWhile isNumberByte
      pure (word ++ [Bytes.space] ++ time)
    else pure word
  if word == utf8 "true" then return .bool true
  else if word == utf8 "false" then return .bool false
  else match integer? word with
    | some n => return .integer n
    | none =>
      if isFloat word then return .float
      else if isDatetime word then return .datetime
      else fail

mutual

def value : (fuel : Nat) → Reader Value
  | 0 => fail
  | fuel + 1 => do
    blanks
    match ← peek with
    | some 0x5B =>
      skip 1
      return .array (← arrayItems fuel)
    | some 0x7B =>
      skip 1
      blanks
      if ← accept [0x7D] then return .inlineTable []
      else return .inlineTable (← inlineEntries fuel)
    | some 0x22 => return .text (← string)
    | some 0x27 => return .text (← string)
    | _ => scalar

/-- The items of an array, behind its bracket or a comma. -/
def arrayItems : (fuel : Nat) → Reader (List Value)
  | 0 => fail
  | fuel + 1 => do
    space ((← get).length + 1)
    if ← accept [0x5D] then return []
    let item ← value fuel
    space ((← get).length + 1)
    if ← accept [0x2C] then return item :: (← arrayItems fuel)
    else
      expect [0x5D]
      return [item]

/-- The entries of an inline table, behind its brace or a comma. -/
def inlineEntries : (fuel : Nat) → Reader (List (Key × Value))
  | 0 => fail
  | fuel + 1 => do
    let k ← key fuel
    expect [0x3D]
    let v ← value fuel
    blanks
    if ← accept [0x2C] then return (k, v) :: (← inlineEntries fuel)
    else
      expect [0x7D]
      return [(k, v)]

end

def lineEnd : Reader Unit := do
  blanks
  comment
  match ← peek with
  | none => return ()
  | some b => if isNewline b then return () else fail

def statement : Reader Statement := do
  let fuel := (← get).length + 1
  let s ←
    if ← accept [0x5B, 0x5B] then do
      let k ← key fuel
      expect [0x5D, 0x5D]
      pure (Statement.arrayTable k)
    else if ← accept [0x5B] then do
      let k ← key fuel
      expect [0x5D]
      pure (Statement.table k)
    else do
      let k ← key fuel
      expect [0x3D]
      pure (Statement.assign k (← value fuel))
  lineEnd
  return s

def statements : (fuel : Nat) → Reader (List Statement)
  | 0 => fail
  | fuel + 1 => do
    space ((← get).length + 1)
    if (← get).isEmpty then return []
    let s ← statement
    return s :: (← statements fuel)

end Reader

/-- Whether a text is UTF-8 without replacement characters and without control characters other than tabs
    and line ends. -/
def isClean (t : Bytes) : Bool :=
  Bytes.isUtf8 t && (Bytes.codes t).all fun c =>
    c != Rune.replacement && c != 0x7F && (0x20 ≤ c || c == 0x09 || c == 0x0A || c == 0x0D)

def returnsOk : Bytes → Bool
  | [] => true
  | 0x0D :: 0x0A :: rest => returnsOk rest
  | 0x0D :: _ => false
  | _ :: rest => returnsOk rest

/-- The text without a byte order mark in front. -/
def withoutMark (t : Bytes) : Bytes :=
  match t with
  | 0xFF :: 0xFE :: rest => rest
  | 0xFE :: 0xFF :: rest => rest
  | 0xEF :: 0xBB :: 0xBF :: rest => rest
  | _ => t

def statements? (t : Bytes) : Option (List Statement) :=
  let t := withoutMark t
  if isClean t && returnsOk t then (Reader.statements (t.length + 1) t).map (·.1) else none

end Colloquy.Toml
