import Colloquy.Document.Basic

/-! # Outline

A flat index of a document by offset, built once per version of a text: the directives with their
bracket contents, the links with their destinations, the turns of the conversation, and the blocks
that hold tool calls and attachments.
-/

namespace Colloquy

/-- A text directive and what stands between its brackets. -/
structure Directive where
  /-- The name in small letters. -/
  key : Bytes
  extent : Extent
  inner : Extent
  deriving Repr, DecidableEq, BEq, Inhabited

/-- A link and its destination. -/
structure Link where
  extent : Extent
  url : Extent
  deriving Repr, DecidableEq, BEq, Inhabited

/-- Whose turn a stretch of the body is. -/
inductive Speaker where
  | user
  | assistant
  deriving Repr, DecidableEq, BEq, Inhabited

/-- One turn of the conversation; an assistant's turn carries the assistant's name. -/
structure Turn where
  speaker : Speaker
  extent : Extent
  name : Bytes
  deriving Repr, DecidableEq, BEq, Inhabited

/-- The index of one text. -/
structure Outline where
  /-- Where the body starts. -/
  body : Nat
  directives : List Directive
  links : List Link
  turns : List Turn
  toolCalls : List Extent
  attachments : List Extent
  deriving Repr, DecidableEq

namespace Directive

/-- The directive in a node's text: the brackets are matched again inside the node. -/
def ofNode (text : Bytes) (n : Document.Node) : Directive :=
  let raw := text.slice n.start n.stop
  let inner : Extent :=
    match raw.indexOf? 0x5B with
    | none => ⟨n.stop, n.stop⟩
    | some start =>
      match Document.Bracket.square? (raw.drop start) with
      | some close => ⟨n.start + start + 1, n.start + start + close⟩
      | none => ⟨n.start + start + 1, n.stop⟩
  ⟨Bytes.lowerAscii n.name, n.extent, inner⟩

end Directive

namespace Link

/-- The offset of the first byte at or behind `i` that is no blank. -/
def skipBlanks (raw : Bytes) (i : Nat) : Nat :=
  i + ((raw.drop i).takeWhile Bytes.isBlankByte).length

/-- The offset of the first white space at or behind `i`. -/
def wordEnd (raw : Bytes) (i : Nat) : Nat :=
  i + ((raw.drop i).takeWhile fun b => !Bytes.isSpaceByte b).length

/-- Where the destination lies in a link's own text: between angle brackets, or the first word in the
    parentheses, or the word behind a definition's colon. -/
def destination (raw : Bytes) : Extent :=
  if Bytes.startsWith raw (utf8 "<") then
    match raw.indexOf? 0x3E with
    | some angle => ⟨1, angle⟩
    | none => ⟨1, raw.length⟩
  else match raw.find? (utf8 "](") with
    | some i =>
      let p := skipBlanks raw (i + 2)
      let angle := if raw[p]? == some 0x3C then Bytes.indexOf? (raw.drop (p + 1)) 0x3E else none
      match angle with
      | some close => ⟨p + 1, p + 1 + close⟩
      | none =>
        match Document.Bracket.paren? (raw.drop (i + 1)) with
        | some close => ⟨p, max p (min (wordEnd raw p) (i + 1 + close))⟩
        | none => ⟨p, wordEnd raw p⟩
    | none =>
      match raw.find? (utf8 "]:") with
      | some i =>
        let p := skipBlanks raw (i + 2)
        ⟨p, wordEnd raw p⟩
      | none => ⟨0, raw.length⟩

def ofNode (text : Bytes) (n : Document.Node) : Link :=
  let d := destination (text.slice n.start n.stop)
  ⟨n.extent, ⟨n.start + d.start, n.start + d.stop⟩⟩

end Link

namespace Outline

def toolCallTag : Bytes := utf8 "tool-call"

def attachmentTag : Bytes := utf8 "inline-attachment"

/-- The literal blocks with a given tag that hold their closing tag. -/
def closedBlocks (d : Document) (tag : Bytes) : List Extent :=
  (d.nodesOf .html).filterMap fun n =>
    if n.name == tag && Bytes.contains (n.extent.of d.text) (Document.Block.closingTag tag) then
      some n.extent
    else none

/-- Split the body behind `cursor`: each top-level container is an assistant's turn, and what lies
    between two of them is the user's. -/
def turnsFrom (stop : Nat) (cursor : Nat) : List Document.Node → List Turn
  | [] => if cursor < stop then [⟨.user, ⟨cursor, stop⟩, []⟩] else []
  | n :: rest =>
    if n.kind != .container || n.depth != 0 || n.start < cursor then turnsFrom stop cursor rest
    else
      let gap := if cursor < n.start then [⟨.user, ⟨cursor, n.start⟩, []⟩] else []
      gap ++ ⟨.assistant, n.extent, n.name⟩ :: turnsFrom stop n.stop rest

def turnsOf (d : Document) : List Turn := turnsFrom d.text.length d.body d.nodes

def ofDocument (d : Document) : Outline where
  body := d.body
  directives := (d.nodesOf .directive).map (Directive.ofNode d.text)
  links := (d.nodesOf .link).map (Link.ofNode d.text)
  turns := turnsOf d
  toolCalls := closedBlocks d toolCallTag
  attachments := closedBlocks d attachmentTag

def ofText (t : Bytes) : Outline := ofDocument (Document.ofText t)

end Outline

end Colloquy
