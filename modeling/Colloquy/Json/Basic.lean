import Colloquy.Text.Rune

/-! # JSON values

A JSON value keeps the literals of its numbers and strings as they were written, so that a value can
be passed on without a change in spelling. Object members keep their order, repeated names included.
-/

namespace Colloquy

/-- A JSON value. -/
inductive Json where
  | null
  | bool (value : Bool)
  /-- A number, by its literal. -/
  | number (literal : Bytes)
  /-- A string, by what stands between its quotation marks. -/
  | string (literal : Bytes)
  | array (items : List Json)
  /-- Names are literals as well. -/
  | object (members : List (Bytes × Json))
  deriving Inhabited, Repr

namespace Json

def hexDigit (n : Nat) : UInt8 := if n < 10 then (0x30 + n).toUInt8 else (0x57 + n).toUInt8

def unicodeEscape (code : Nat) : Bytes :=
  [0x5C, 0x75, hexDigit (code / 4096 % 16), hexDigit (code / 256 % 16), hexDigit (code / 16 % 16),
    hexDigit (code % 16)]

/-- How one rune is written in a string literal. Angle brackets and ampersands are escaped so that the
    output is safe inside a web page, the two Unicode line separators so that it is safe inside a
    script, and an undecodable byte becomes the replacement character. -/
def escapeRune (r : Rune) : Bytes :=
  match r.code with
    | 0x22 => [0x5C, 0x22]
    | 0x5C => [0x5C, 0x5C]
    | 0x08 => [0x5C, 0x62]
    | 0x0C => [0x5C, 0x66]
    | 0x0A => [0x5C, 0x6E]
    | 0x0D => [0x5C, 0x72]
    | 0x09 => [0x5C, 0x74]
    | code =>
      if code < 0x20 || code == 0x3C || code == 0x3E || code == 0x26 || code == 0x2028 ||
          code == 0x2029 then unicodeEscape code
      else Rune.encode code

def escape (t : Bytes) : Bytes := t.runes.flatMap escapeRune

def hex4? : Bytes → Option Nat
  | a :: b :: c :: d :: _ => do
    return (← Bytes.hexValue? a) * 4096 + (← Bytes.hexValue? b) * 256 + (← Bytes.hexValue? c) * 16 + (← Bytes.hexValue? d)
  | _ => none

def unitEscape? (t : Bytes) : Option Nat :=
  match t with
  | 0x5C :: 0x75 :: rest => hex4? rest
  | _ => none

/-- The text that a literal stands for, `skip` bytes of which belong to an escape already read. A
    surrogate without its partner becomes the replacement character. -/
def unescapeFrom : Nat → Bytes → List Nat
  | _, [] => []
  | skip + 1, _ :: rest => unescapeFrom skip rest
  | 0, b :: rest =>
    if b == 0x5C then
      match rest with
      | 0x75 :: digits =>
        match hex4? digits with
        | none => unescapeFrom 0 rest
        | some unit =>
          if 0xD800 ≤ unit && unit < 0xDC00 then
            match unitEscape? (digits.drop 4) with
            | some low =>
              if 0xDC00 ≤ low && low < 0xE000 then
                (0x10000 + (unit - 0xD800) * 1024 + (low - 0xDC00)) :: unescapeFrom 11 rest
              else Rune.replacement :: unescapeFrom 5 rest
            | none => Rune.replacement :: unescapeFrom 5 rest
          else if 0xDC00 ≤ unit && unit < 0xE000 then Rune.replacement :: unescapeFrom 5 rest
          else unit :: unescapeFrom 5 rest
      | c :: _ =>
        let code :=
          if c == 0x62 then 0x08 else if c == 0x66 then 0x0C else if c == 0x6E then 0x0A
          else if c == 0x72 then 0x0D else if c == 0x74 then 0x09 else c.toNat
        code :: unescapeFrom 1 rest
      | [] => []
    else
      let r := Rune.decode b rest
      r.code :: unescapeFrom (r.width - 1) rest

def unescape (literal : Bytes) : Bytes := Bytes.ofCodes (unescapeFrom 0 literal)

def ofText (t : Bytes) : Json := .string (escape t)

def str (s : String) : Json := ofText (utf8 s)

def ofNat (n : Nat) : Json := .number (Bytes.ofNat n)

def ofInt (n : Int) : Json := .number (Bytes.ofInt n)

def obj (members : List (String × Json)) : Json :=
  .object (members.map fun m => (escape (utf8 m.1), m.2))

/-- A literal made safe for web pages and scripts; `skip` bytes belong to a separator already
    escaped. -/
def secureFrom : Nat → Bytes → Bytes
  | _, [] => []
  | skip + 1, _ :: rest => secureFrom skip rest
  | 0, b :: rest =>
    if b == 0x3C || b == 0x3E || b == 0x26 then unicodeEscape b.toNat ++ secureFrom 0 rest
    else match b, rest with
      | 0xE2, 0x80 :: 0xA8 :: _ => unicodeEscape 0x2028 ++ secureFrom 2 rest
      | 0xE2, 0x80 :: 0xA9 :: _ => unicodeEscape 0x2029 ++ secureFrom 2 rest
      | _, _ => b :: secureFrom 0 rest

def quoted (literal : Bytes) : Bytes := 0x22 :: (literal ++ [0x22])

mutual
/-- The value on one line without blanks. -/
def compact : Json → Bytes
  | .null => utf8 "null"
  | .bool true => utf8 "true"
  | .bool false => utf8 "false"
  | .number literal => literal
  | .string literal => quoted (secureFrom 0 literal)
  | .array items => 0x5B :: (compactItems items ++ [0x5D])
  | .object members => 0x7B :: (compactMembers members ++ [0x7D])

def compactItems : List Json → Bytes
  | [] => []
  | [item] => compact item
  | item :: items => compact item ++ 0x2C :: compactItems items

def compactMembers : List (Bytes × Json) → Bytes
  | [] => []
  | [(name, value)] => quoted (secureFrom 0 name) ++ 0x3A :: compact value
  | (name, value) :: members =>
    quoted (secureFrom 0 name) ++ 0x3A :: (compact value ++ 0x2C :: compactMembers members)
end

def newline (level : Nat) : Bytes := Bytes.lf :: List.replicate (2 * level) Bytes.space

mutual
/-- The value with one item or member per line, indented by two spaces per level. Literals stay as they
    are. -/
def indent (level : Nat) : Json → Bytes
  | .null => utf8 "null"
  | .bool true => utf8 "true"
  | .bool false => utf8 "false"
  | .number literal => literal
  | .string literal => quoted literal
  | .array [] => utf8 "[]"
  | .array items => 0x5B :: (newline (level + 1) ++ indentItems (level + 1) items ++ newline level ++ [0x5D])
  | .object [] => [0x7B, 0x7D]
  | .object members =>
    0x7B :: (newline (level + 1) ++ indentMembers (level + 1) members ++ newline level ++ [0x7D])

/-- Array items, each on a line of its own. -/
def indentItems (level : Nat) : List Json → Bytes
  | [] => []
  | [item] => indent level item
  | item :: items => indent level item ++ 0x2C :: (newline level ++ indentItems level items)

/-- Object members, each on a line of its own. -/
def indentMembers (level : Nat) : List (Bytes × Json) → Bytes
  | [] => []
  | [(name, value)] => quoted name ++ 0x3A :: Bytes.space :: indent level value
  | (name, value) :: members =>
    quoted name ++ 0x3A :: Bytes.space ::
      (indent level value ++ 0x2C :: (newline level ++ indentMembers level members))
end

/-- The value over several lines, with a line feed at the end. -/
def document (j : Json) : Bytes := indent 0 j ++ [Bytes.lf]

end Json

end Colloquy
