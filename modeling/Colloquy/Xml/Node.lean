import Colloquy.Xml.Name

/-! # XML elements

The tree that the tokens of an XML text form. Every start tag must meet its own end tag. Characters
outside of elements are allowed, and so is any number of elements.
-/

namespace Colloquy.Xml

/-! ## XML tokens

An XML text is a sequence of tags and stretches of characters, with comments, instructions and
declarations among them that mean nothing here. A text with a broken token has no tokens at all.
-/

/-- A piece of an XML text. -/
inductive Token
  /-- A start tag; `isWhole` when it is an end tag as well. -/
  | start (name : Name) (isWhole : Bool)
  | stop (name : Name)
  | text (content : Bytes)
  /-- A comment, an instruction or a declaration. -/
  | aside
  deriving Repr, DecidableEq

/-- What can be read in front of a text, and the rest. -/
abbrev Reader (α : Type) := Bytes → Option (α × Bytes)

def skipSpace (t : Bytes) : Bytes := t.dropWhile Bytes.isSpaceByte

/-- The bytes in front that a name may consist of. Something must follow them. -/
def nameBytes : Reader Bytes := fun t =>
  let front := t.takeWhile fun b => 0x80 ≤ b || isNameByte b
  let rest := t.drop front.length
  if rest.isEmpty then none else some (front, rest)

def name : Reader Name := fun t => do
  let (front, rest) ← nameBytes t
  return (← Name.ofText? front, rest)

def entities : List (String × UInt8) := [("lt", 0x3C), ("gt", 0x3E), ("amp", 0x26), ("apos", 0x27), ("quot", 0x22)]

/-- The character behind an ampersand: by its number, or by its name. -/
def reference : Reader Bytes := fun t => do
  match t with
  | 0x23 :: rest =>
    let (base, rest) := match rest with
      | 0x78 :: rest => (16, rest)
      | _ => (10, rest)
    let digits := rest.takeWhile fun b => Bytes.isDigit b || (base == 16 && (Bytes.hexValue? b).isSome)
    let code ← Bytes.inBase? base digits
    let rest ← Bytes.after? (rest.drop digits.length) [0x3B]
    if code ≤ 0x10FFFF then return (Rune.encode code, rest) else none
  | _ =>
    let (front, rest) ← nameBytes t
    let rest ← Bytes.after? rest [0x3B]
    let entity ← entities.find? fun e => utf8 e.1 == front
    return ([entity.2], rest)

/-- Where characters stand, which decides what ends them. -/
inductive Place
  /-- Between tags: until a tag starts. -/
  | plain
  /-- In a section that is taken as it is. -/
  | section_
  /-- In a value: until the mark that it started with. -/
  | quoted (mark : UInt8)
  deriving Repr, DecidableEq

/-- The bytes `]]`. -/
def brackets : Bytes := [0x5D, 0x5D]

/-- Characters up to their end. `done` is what they mean so far, in reverse, and `before` are the last two
    bytes read, later first, of which references make nothing. A carriage return is a line feed, alone or with
    one behind it. Two brackets and a `>` end a section and stand nowhere else between tags. -/
def charactersFrom (place : Place) : (fuel : Nat) → (done before : Bytes) → Reader Bytes
  | 0, _, _, _ => none
  | _ + 1, done, _, [] => if place == .plain then some (done.reverse, []) else none
  | fuel + 1, done, before, b :: rest =>
    let isValue := match place with
      | .quoted _ => true
      | _ => false
    if !isValue && before == brackets && b == 0x3E then
      if place == .section_ then some ((done.drop 2).reverse, rest) else none
    else if b == 0x3C && place != .section_ then
      if isValue then none else some (done.reverse, b :: rest)
    else if place == .quoted b then some (done.reverse, rest)
    else if b == 0x26 && place != .section_ then
      match reference rest with
      | some (character, rest) => charactersFrom place fuel (character.reverse ++ done) [] rest
      | none => none
    else
      let before' := b :: before.take 1
      if b == Bytes.cr then charactersFrom place fuel (Bytes.lf :: done) before' rest
      else if b == Bytes.lf && before.head? == some Bytes.cr then charactersFrom place fuel done before' rest
      else charactersFrom place fuel (b :: done) before' rest

def isCharacter (r : Rune) : Bool :=
  !r.isInvalid && (r.code == 0x09 || r.code == 0x0A || r.code == 0x0D || (0x20 ≤ r.code && r.code ≤ 0xD7FF) ||
    (0xE000 ≤ r.code && r.code ≤ 0xFFFD) || 0x10000 ≤ r.code)

/-- Characters up to their end, all of which are allowed. -/
def characters (place : Place) : Reader Bytes := fun t => do
  let (content, rest) ← charactersFrom place (t.length + 1) [] [] t
  if content.runes.all isCharacter then return (content, rest) else none

/-- An end tag behind `</`. -/
def endTag : Reader Token := fun t => do
  let (name, rest) ← name t
  let rest ← Bytes.after? (skipSpace rest) [0x3E]
  return (.stop name, rest)

def value : Reader Bytes
  | mark :: rest => if mark == 0x22 || mark == 0x27 then characters (.quoted mark) rest else none
  | [] => none

/-- The attributes of a start tag and its end, which tells whether the tag is whole. -/
def attributes : (fuel : Nat) → Reader Bool
  | 0, _ => none
  | fuel + 1, t =>
    match skipSpace t with
    | 0x2F :: rest => (Bytes.after? rest [0x3E]).map fun rest => (true, rest)
    | 0x3E :: rest => some (false, rest)
    | t => do
      let (_, rest) ← name t
      let rest ← Bytes.after? (skipSpace rest) [0x3D]
      let (_, rest) ← value (skipSpace rest)
      attributes fuel rest

/-- A start tag behind `<`. -/
def startTag : Reader Token := fun t => do
  let (name, rest) ← name t
  let (isWhole, rest) ← attributes (rest.length + 1) rest
  return (.start name isWhole, rest)

/-- The quoted value behind the first `key=` that a quotation mark follows. -/
def setting (key : Bytes) : (fuel : Nat) → Bytes → Bytes
  | 0, _ => []
  | fuel + 1, t =>
    match Bytes.find? t key with
    | none => []
    | some i =>
      match t.drop (i + key.length) with
      | [] => []
      | mark :: rest =>
        if mark == 0x22 || mark == 0x27 then ((Bytes.cut? rest mark).map (·.1)).getD []
        else setting key fuel rest

/-- Whether an instruction that introduces a text names a version and an encoding that can be read. -/
def isReadable (content : Bytes) : Bool :=
  let version := setting (utf8 "version=") (content.length + 1) content
  let encoding := setting (utf8 "encoding=") (content.length + 1) content
  (version.isEmpty || version == utf8 "1.0") && (encoding.isEmpty || Bytes.lowerAscii encoding == utf8 "utf-8")

/-- An instruction behind `<?`. -/
def instruction : Reader Token := fun t => do
  let (front, rest) ← nameBytes t
  if !isName front then none
  let rest := skipSpace rest
  let i ← Bytes.find? rest (utf8 "?>")
  if front == utf8 "xml" && !isReadable (rest.take i) then none
  return (.aside, rest.drop (i + 2))

/-- A comment behind `<!--`: the next two hyphens must end it. -/
def comment : Reader Token := fun t => do
  let i ← Bytes.find? t (utf8 "--")
  let rest ← Bytes.after? (t.drop (i + 2)) [0x3E]
  return (.aside, rest)

/-- The rest of a declaration: angle brackets nest, unless they stand in quotation marks or comments. -/
def declarationFrom : (fuel : Nat) → (quote : Option UInt8) → (depth : Nat) → Reader Token
  | 0, _, _, _ => none
  | _ + 1, _, _, [] => none
  | fuel + 1, some mark, depth, b :: rest => declarationFrom fuel (if b == mark then none else some mark) depth rest
  | fuel + 1, none, depth, b :: rest =>
    if b == 0x3E then if depth == 0 then some (.aside, rest) else declarationFrom fuel none (depth - 1) rest
    else if b == 0x22 || b == 0x27 then declarationFrom fuel (some b) depth rest
    else if b == 0x3C then
      match Bytes.after? rest (utf8 "!--") with
      | some rest => do
        let i ← Bytes.find? rest (utf8 "-->")
        declarationFrom fuel none depth (rest.drop (i + 3))
      | none => declarationFrom fuel none (depth + 1) rest
    else declarationFrom fuel none depth rest

/-- What follows `<!`: a comment, a section that is taken as it is, or a declaration. -/
def special : Reader Token
  | 0x2D :: rest => (Bytes.after? rest [0x2D]).bind comment
  | 0x5B :: rest => do
    let (content, rest) ← characters .section_ (← Bytes.after? rest (utf8 "CDATA["))
    return (.text content, rest)
  | _ :: rest => declarationFrom (rest.length + 1) none 0 rest
  | [] => none

def token : Reader Token
  | 0x3C :: 0x2F :: rest => endTag rest
  | 0x3C :: 0x3F :: rest => instruction rest
  | 0x3C :: 0x21 :: rest => special rest
  | 0x3C :: rest => startTag rest
  | t => (characters .plain t).map fun (content, rest) => (.text content, rest)

def tokensFrom : (fuel : Nat) → Bytes → Option (List Token)
  | _, [] => some []
  | 0, _ => none
  | fuel + 1, t => do
    let (first, rest) ← token t
    return first :: (← tokensFrom fuel rest)

def tokens (t : Bytes) : Option (List Token) := tokensFrom (t.length + 1) t

/-! ## Elements -/

/-- An element with what it holds, or characters. -/
inductive Node
  | element (name : Bytes) (children : List Node)
  | text (content : Bytes)
  deriving Repr

/-- An element whose end tag has not come yet, and what it holds so far, in reverse. -/
structure Opened where
  name : Name
  children : List Node := []

/-- Close the innermost elements as end tags come. `open_` are the elements around, innermost first, and
    `done` is what stands outside of all of them, in reverse. -/
def forestFrom (open_ : List Opened) (done : List Node) : List Token → Option (List Node)
  | [] => if open_.isEmpty then some done.reverse else none
  | token :: tokens =>
    let put (node : Node) (open_ : List Opened) : List Opened × List Node :=
      match open_ with
      | [] => ([], node :: done)
      | inner :: outer => ({ inner with children := node :: inner.children } :: outer, done)
    match token with
    | .aside => forestFrom open_ done tokens
    | .text content =>
      let (open_, done) := put (.text content) open_
      forestFrom open_ done tokens
    | .start name isWhole =>
      if isWhole then
        let (open_, done) := put (.element name.base []) open_
        forestFrom open_ done tokens
      else forestFrom (⟨name, []⟩ :: open_) done tokens
    | .stop name =>
      match open_ with
      | [] => none
      | inner :: outer =>
        if inner.name == name then
          let (open_, done) := put (.element name.base inner.children.reverse) outer
          forestFrom open_ done tokens
        else none

def parse? (t : Bytes) : Option (List Node) := (tokens t).bind (forestFrom [] [])

def textOf (nodes : List Node) : Bytes :=
  nodes.flatMap fun node => match node with
    | .text content => content
    | .element .. => []

end Colloquy.Xml
