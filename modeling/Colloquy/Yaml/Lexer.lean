import Colloquy.Yaml.Comment
import Colloquy.Yaml.Scalar
import Colloquy.Yaml.Tag

/-! # Tokens of a YAML text

The token queue. A key is only known as one when the colon behind it is reached, so a token that may
start a key is remembered, and the tokens that announce the key are put before it afterwards. At least
three tokens are read before the first of them is handed out, and more while the first may still turn
out to start a key; a fault in a token therefore shows before a fault in the structure that stands
less than that far ahead of it.
-/

namespace Colloquy.Yaml

/-- A token that may start a key. -/
structure KeyStart where
  possible : Bool
  /-- Without a colon the text is faulty. -/
  required : Bool
  /-- The number of the token. -/
  token : Nat
  mark : Mark
  deriving Repr, DecidableEq

/-- The state of reading tokens. -/
structure Lexer where
  cursor : Cursor
  /-- The tokens read and not handed out. -/
  queue : List Token
  /-- How many tokens were handed out. -/
  handed : Nat
  started : Bool
  /-- The column of the innermost block collection; -1 outside of all. -/
  indent : Int
  /-- The columns of the collections around it, innermost first. -/
  indents : List Int
  /-- How many brackets are open. -/
  flow : Nat
  /-- Whether a key may start here. -/
  keyAllowed : Bool
  /-- The possible key of each bracket level, outermost first. -/
  keys : Array KeyStart
  /-- The bracket level at which a token may start a key. -/
  levels : List (Nat × Nat)
  deriving Repr

abbrev Lex := StateT Lexer (Except Fault)

def maxDepth : Nat := 10000

namespace Lexer

/-- The start of a text. An empty text is read as an empty line. -/
def ofText (t : Bytes) : Lexer :=
  { cursor := Cursor.ofText (if t.isEmpty then [Bytes.lf] else t), queue := [], handed := 0
    started := false, indent := -1, indents := [], flow := 0, keyAllowed := true, keys := #[], levels := [] }

def mark (l : Lexer) : Mark := l.cursor.mark

def nextNumber (l : Lexer) : Nat := l.handed + l.queue.length

/-- Queue a token behind all others. -/
def push (l : Lexer) (t : Token) : Lexer := { l with queue := l.queue ++ [t] }

def insert (l : Lexer) (number : Nat) (t : Token) : Lexer :=
  if number < l.handed then l.push t
  else { l with queue := l.queue.insertIdx (number - l.handed) t }

/-- The token number no longer stands for a possible key. -/
def forget (l : Lexer) (number : Nat) : Lexer :=
  { l with levels := l.levels.filter fun entry => entry.1 != number }

end Lexer

namespace Lex

def scan {α : Type} (s : Scan α) : Lex α := fun l =>
  match s l.cursor with
  | .ok (a, c) => .ok (a, { l with cursor := c })
  | .error f => .error f

/-- Raise a fault of the token that starts at `context`. -/
def fail {α : Type} (p : Problem) (context : Mark) : Lex α := scan (Scan.fail p context)

/-- Whether a possible key still is one: it must be on this line and at most 1024 characters back. -/
def isLive (level : Nat) : Lex Bool := do
  let l ← get
  match l.keys[level]? with
  | none => return false
  | some k =>
    if !k.possible then return false
    if k.mark.line < l.mark.line || k.mark.index + 1024 < l.mark.index then
      if k.required then fail .noColon k.mark
      set { l with keys := l.keys.modify level fun k => { k with possible := false } }
      return false
    return true

def dropKey : Lex Unit := do
  let l ← get
  match l.keys.back? with
  | none => return
  | some k =>
    if k.possible then
      if k.required then fail .noColon k.mark
      set { (l.forget k.token) with keys := l.keys.modify (l.keys.size - 1) fun k => { k with possible := false } }

def saveKey : Lex Unit := do
  let l ← get
  if l.keyAllowed then
    let k : KeyStart :=
      ⟨true, l.flow == 0 && l.indent == l.mark.column, l.nextNumber, l.mark⟩
    dropKey
    let l ← get
    let level := l.keys.size - 1
    set { l with
      keys := l.keys.set! level k
      levels := (k.token, level) :: l.levels.filter fun entry => entry.1 != k.token }

def allowKey (b : Bool) : Lex Unit := modify fun l => { l with keyAllowed := b }

/-- Open a block collection at `column`, if none is open there: its start goes before token `number`,
    or behind all tokens. -/
def openBlock (column : Nat) (number : Option Nat) (kind : Token.Kind) (mark : Mark) : Lex Unit := do
  let l ← get
  if l.flow == 0 && l.indent < column then
    let l := { l with indents := l.indent :: l.indents, indent := column }
    set l
    if l.indents.length > maxDepth then
      fail .tooDeep ((l.keys.back?.map KeyStart.mark).getD l.mark)
    let t : Token := ⟨kind, mark, mark⟩
    match number with
    | some n => set (l.insert n t)
    | none => set (l.push t)

/-- The ends of the block collections at the columns `closed`, innermost first, behind the comments
    `remarks`; `reached` is how far back these must go. -/
def blockEnds (remarks : List Comment) : (closed : List Int) → (reached : Int) → Mark → List Token
  | [], _, _ => []
  | indent :: outer, reached, mark =>
    let at_ := Comment.blockEnd indent remarks reached mark
    ⟨.blockEnd, at_, at_⟩ :: blockEnds remarks outer (if at_ == mark then reached else at_.index) at_

/-- Close the block collections that are indented deeper than `column`; their ends stand at `mark` or at
    comments behind it. -/
def closeBlocks (column : Int) (mark : Mark) (remarks : List Comment) : Lex Unit :=
  modify fun l =>
    if l.flow > 0 then l
    else
      let open_ := l.indent :: l.indents
      let closed := open_.takeWhile (· > column)
      match open_.drop closed.length with
      | [] => l
      | indent :: indents =>
        { l with
          queue := l.queue ++ blockEnds remarks closed ((mark.index : Int) - 1) mark
          indent := indent
          indents := indents }

/-- Read a token of `n` characters. -/
def punctuation (kind : Token.Kind) (n : Nat) : Lex Unit := do
  let start := (← get).mark
  scan (Scan.taken n)
  modify fun l => l.push ⟨kind, start, l.mark⟩

def token (s : Scan Token) : Lex Unit := do
  let t ← scan s
  modify fun l => l.push t

/-- The end of the text behind the comments `remarks`. It ends the last line. -/
def streamEnd (remarks : List Comment) : Lex Unit := do
  modify fun l =>
    if l.mark.column == 0 then l
    else { l with cursor := { l.cursor with mark := ⟨l.mark.index, l.mark.line + 1, 0⟩ } }
  closeBlocks (-1) (← get).mark remarks
  dropKey
  allowKey false
  modify fun l => l.push ⟨.streamEnd, l.mark, l.mark⟩

/-- A directive behind the comments `remarks`. -/
def directive (remarks : List Comment) : Lex Unit := do
  closeBlocks (-1) (← get).mark remarks
  dropKey
  allowKey false
  token Scan.directive

/-- A document marker behind the comments `remarks`. -/
def documentMarker (kind : Token.Kind) (remarks : List Comment) : Lex Unit := do
  closeBlocks (-1) (← get).mark remarks
  dropKey
  allowKey false
  punctuation kind 3

def openBracket (kind : Token.Kind) : Lex Unit := do
  saveKey
  let l ← get
  set { l with flow := l.flow + 1, keys := l.keys.push ⟨false, false, l.nextNumber, l.mark⟩ }
  if l.flow + 1 > maxDepth then fail .tooDeep l.mark
  allowKey true
  punctuation kind 1

def closeBracket (kind : Token.Kind) : Lex Unit := do
  dropKey
  let l ← get
  if l.flow > 0 then
    let number := (l.keys.back?.map KeyStart.token).getD 0
    set { (l.forget number) with flow := l.flow - 1, keys := l.keys.pop }
  allowKey false
  punctuation kind 1

def flowEntry : Lex Unit := do
  dropKey
  allowKey true
  punctuation .flowEntry 1

def blockEntry : Lex Unit := do
  let l ← get
  if l.flow == 0 then
    if !l.keyAllowed then fail .entryNotAllowed l.mark
    openBlock l.mark.column none .blockSequenceStart l.mark
  dropKey
  allowKey true
  punctuation .blockEntry 1

def key : Lex Unit := do
  let l ← get
  if l.flow == 0 then
    if !l.keyAllowed then fail .keyNotAllowed l.mark
    openBlock l.mark.column none .blockMappingStart l.mark
  dropKey
  allowKey (l.flow == 0)
  punctuation .key 1

def value : Lex Unit := do
  let level := (← get).keys.size - 1
  if ← isLive level then
    let l ← get
    match l.keys[level]? with
    | none => pure ()
    | some k =>
      set (l.insert k.token ⟨.key, k.mark, k.mark⟩)
      openBlock k.mark.column (some k.token) .blockMappingStart k.mark
      modify fun l =>
        { (l.forget k.token) with keys := l.keys.modify level fun k => { k with possible := false } }
    allowKey false
  else
    let l ← get
    if l.flow == 0 then
      if !l.keyAllowed then fail .valueNotAllowed l.mark
      openBlock l.mark.column none .blockMappingStart l.mark
    allowKey (l.flow == 0)
  punctuation .value 1

/-- An anchor, an alias, a tag or a quoted scalar. -/
def keyToken (s : Scan Token) : Lex Unit := do
  saveKey
  allowKey false
  token s

def blockScalar (folded : Bool) : Lex Unit := do
  dropKey
  allowKey true
  token (Scan.block folded (← get).indent)

def plainScalar : Lex Unit := do
  saveKey
  allowKey false
  let l ← get
  let (t, broken) ← scan (Scan.plain (l.flow > 0) (l.indent + 1).toNat)
  modify fun l => l.push t
  if broken then allowKey true

/-- Past white space, comments and line breaks to the next token; the comments, latest first. Tabs count
    as white space between brackets and where no key may start. While the window starts with a byte order
    mark, the first character of every line is taken for one. -/
def toToken (lead : Mark) : (fuel : Nat) → List Comment → Lex (List Comment)
  | 0, remarks => return remarks
  | fuel + 1, remarks => do
    scan (Scan.need 1)
    let l ← get
    if l.mark.column == 0 && l.cursor.onOrderMark then scan Scan.skip
    scan (Scan.need 1)
    scan do
      let _ ← Scan.takeWhile fun c => c == 0x20 || ((l.flow > 0 || !l.keyAllowed) && c == 0x09)
    let remarks ←
      if (← get).cursor.peek 0 == some 0x23 then
        let afterValue := (l.queue.getLast?.map fun t => t.kind) == some .value
        let found ← scan (Scan.comments lead (l.flow > 0) l.indent.toNat afterValue)
        pure (found ++ remarks)
      else pure remarks
    if (((← get).cursor.peek 0).map isBreak).getD false then
      scan (Scan.need 2)
      scan do
        let _ ← Scan.lineBreak
      if (← get).flow == 0 then allowKey true
      toToken lead fuel remarks
    else return remarks

def startsPlain (flow : Bool) (c : Nat) (following : Option Nat) : Bool :=
  !(isBlankEnd (some c) || [0x2D, 0x3F, 0x3A, 0x2C, 0x5B, 0x5D, 0x7B, 0x7D, 0x23, 0x26, 0x2A, 0x21, 0x7C,
      0x3E, 0x27, 0x22, 0x25, 0x40, 0x60].contains c) ||
  (c == 0x2D && !(following.map isBlankChar).getD false) ||
  (!flow && (c == 0x3F || c == 0x3A) && !isBlankEnd following)

def content (c : Nat) (following : Option Nat) : Lex Unit := do
  let l ← get
  let flow := l.flow > 0
  if c == 0x5B then openBracket .flowSequenceStart
  else if c == 0x7B then openBracket .flowMappingStart
  else if c == 0x5D then closeBracket .flowSequenceEnd
  else if c == 0x7D then closeBracket .flowMappingEnd
  else if c == 0x2C then flowEntry
  else if c == 0x2D && isBlankEnd following then blockEntry
  else if c == 0x3F && (flow || isBlankEnd following) then key
  else if c == 0x3A && (flow || isBlankEnd following) then value
  else if c == 0x2A then keyToken (Scan.name .alias)
  else if c == 0x26 then keyToken (Scan.name .anchor)
  else if c == 0x21 then keyToken Scan.tag
  else if c == 0x7C && !flow then blockScalar false
  else if c == 0x3E && !flow then blockScalar true
  else if c == 0x27 then keyToken (Scan.quoted true)
  else if c == 0x22 then keyToken (Scan.quoted false)
  else if startsPlain flow c following then plainScalar
  else fail .noToken l.mark

/-- Read the next token, with the block starts and ends that belong to it. -/
def fetch : Lex Unit := do
  scan (Scan.need 1)
  let l ← get
  if !l.started then
    set { (l.push ⟨.streamStart, l.mark, l.mark⟩) with
      started := true, keys := #[⟨false, false, 0, ⟨0, 0, 0⟩⟩] }
    return
  let before := l.mark
  let remarks ← toToken before l.cursor.size []
  closeBlocks (← get).mark.column before remarks
  scan (Scan.need 4)
  let c := (← get).cursor
  match c.peek 0 with
  | none => streamEnd remarks
  | some x =>
    if c.mark.column == 0 && x == 0x25 then directive remarks
    else if c.mark.column == 0 && startsMarker 0x2D c.rest then documentMarker .documentStart remarks
    else if c.mark.column == 0 && startsMarker 0x2E c.rest then documentMarker .documentEnd remarks
    else
      content x (c.peek 1)
      if ((← get).queue.getLast?.map fun t => t.kind) != some .blockEntry then scan Scan.lineComment

/-- Read tokens until the first of the queue can be handed out. -/
def fill : (fuel : Nat) → Lex Unit
  | 0 => return ()
  | fuel + 1 => do
    let l ← get
    let more ←
      if l.queue.length ≤ 2 then pure true
      else match l.levels.find? fun entry => entry.1 == l.handed with
        | some (_, level) => isLive level
        | none => pure false
    if more then
      fetch
      fill fuel

def peek : Lex Token := do
  let l ← get
  fill l.cursor.size
  match (← get).queue with
  | t :: _ => return t
  | [] => fail .other l.mark

def advance : Lex Unit := modify fun l => { l with queue := l.queue.drop 1, handed := l.handed + 1 }

end Lex

end Colloquy.Yaml
