import Colloquy.Text.Bytes

/-! # Elements in raw text

Finding `<name …>…</name>` in text that need not be well-formed. An element starts at its opening tag,
which ends at the next `>`, and stops at the first closing tag behind it; elements do not nest.
-/

namespace Colloquy

/-- Settings of a tag, such as `kind="file"`; names are unique. -/
abbrev Marks := List (Bytes × Bytes)

namespace Marks

/-- Set a name; a later value takes the place of an earlier one. -/
def put (ms : Marks) (name value : Bytes) : Marks :=
  if ms.any (·.1 == name) then ms.map fun m => if m.1 == name then (name, value) else m
  else ms ++ [(name, value)]

/-- The value of a name; the empty text when it is not set. -/
def get (ms : Marks) (name : String) : Bytes :=
  ((ms.find? fun m => m.1 == utf8 name).map (·.2)).getD []

def isWordByte (b : UInt8) : Bool := Bytes.isLetter b || Bytes.isDigit b || b == 0x5F

def isNameByte (b : UInt8) : Bool := isWordByte b || b == 0x2D

def isGap (b : UInt8) : Bool := Bytes.isSpaceByte b || b == 0x0C

/-- The quoted value behind an equals sign at the start of a text, and what follows it. -/
def value? (t : Bytes) : Option (Bytes × Bytes) :=
  match t.dropWhile isGap with
  | 0x3D :: rest =>
    match rest.dropWhile isGap with
    | 0x22 :: rest => Bytes.cut? rest 0x22
    | _ => none
  | _ => none

/-- Collect the settings of a text onto `ms`; each step reads a byte at least. -/
def collect : (fuel : Nat) → Marks → Bytes → Marks
  | 0, ms, _ => ms
  | fuel + 1, ms, t =>
    let t := t.dropWhile fun b => !isNameByte b
    if t.isEmpty then ms
    else
      let name := t.takeWhile isNameByte
      let rest := t.dropWhile isNameByte
      match value? rest with
      | some (value, rest) => collect fuel (ms.put name value) rest
      | none => collect fuel ms rest

/-- The settings in the text of a tag; what is not a setting is skipped. -/
def ofText (t : Bytes) : Marks := collect (t.length + 1) [] t

end Marks

/-- An element: the settings of its opening tag and the text up to its closing tag. -/
structure Element where
  marks : Marks
  body : Bytes
  deriving Repr, DecidableEq

namespace Element

/-- The settings and the rest of the text behind an opening tag at the start of a text. -/
def openingTag? (name : String) (t : Bytes) : Option (Bytes × Bytes) := do
  let rest ← Bytes.after? t (utf8 ("<" ++ name))
  if (rest.head?.map Marks.isWordByte).getD false then none
  else Bytes.cut? rest 0x3E

/-- The element at the start of a text, and what follows it. -/
def at? (name : String) (t : Bytes) : Option (Element × Bytes) := do
  let (marks, rest) ← openingTag? name t
  let closing := utf8 ("</" ++ name ++ ">")
  let i ← Bytes.find? rest closing
  return (⟨Marks.ofText marks, rest.take i⟩, rest.drop (i + closing.length))

/-- All elements of a name, in order; each step reads a byte at least. -/
def allFrom (name : String) : (fuel : Nat) → Bytes → List Element
  | 0, _ => []
  | _ + 1, [] => []
  | fuel + 1, b :: rest =>
    match at? name (b :: rest) with
    | some (e, after) => e :: allFrom name fuel after
    | none => allFrom name fuel rest

/-- All elements of a name, in order. -/
def all (name : String) (t : Bytes) : List Element := allFrom name (t.length + 1) t

end Element

end Colloquy
