import Colloquy.Document.Inline
import Colloquy.Document.Line

/-! # Blocks

The line-by-line part of the scan. At any time the scanner is outside every leaf block or inside one:
a paragraph, indented code, fenced code or a literal block. Besides, containers may be open around the
current line. A paragraph's text is scanned for inline constructs when the paragraph ends.
-/

namespace Colloquy.Document.Block

/-- The leaf block that the next line may continue. -/
inductive Mode where
  | idle
  /-- A paragraph from its first line's start to its last line's end. -/
  | paragraph (start stop : Nat)
  /-- Indented code up to the line after its last indented line. -/
  | indented (start stop : Nat)
  /-- Code after a fence of `length` times the byte `mark`. -/
  | fenced (mark : UInt8) (length start : Nat)
  /-- A literal block that started with the tag `tag`. -/
  | html (tag : Bytes) (start : Nat)
  deriving Repr, DecidableEq, Inhabited

/-- A container that is not closed yet. -/
structure Opening where
  name : Bytes
  colons : Nat
  start : Nat
  deriving Repr, DecidableEq

/-- What the scanner carries from line to line; the innermost container comes first. -/
structure State where
  mode : Mode
  stack : List Opening
  deriving Repr, DecidableEq

/-- The byte and the length of the fence that a line, without its leading spaces, opens. A backtick
    fence has no backtick behind it. -/
def openingFence? (t : Bytes) : Option (UInt8 × Nat) :=
  match t with
  | [] => none
  | mark :: _ =>
    if mark == 0x60 || mark == 0x7E then
      let n := (t.takeWhile (· == mark)).length
      if n < 3 || (mark == 0x60 && (t.drop n).contains 0x60) then none else some (mark, n)
    else none

/-- Whether a line closes a fence: at most three spaces, at least as many marks, then nothing. -/
def closesFence (mark : UInt8) (length : Nat) (line : Bytes) : Bool :=
  let indent := (line.takeWhile (· == Bytes.space)).length
  let rest := line.drop indent
  let n := (rest.takeWhile (· == mark)).length
  indent ≤ 3 && length ≤ n && Bytes.isBlank (rest.drop n)

def isTagByte (b : UInt8) : Bool := Bytes.isLetter b || Bytes.isDigit b || b == 0x2D

/-- The tag, in small letters, of the literal block that a line opens. -/
def openingTag? (line : Bytes) : Option Bytes :=
  match line with
  | 0x3C :: b :: rest =>
    if Bytes.isLetter b then
      let tag := (b :: rest).takeWhile isTagByte
      match ((b :: rest).dropWhile isTagByte).head? with
      | none => some (Bytes.lowerAscii tag)
      | some c =>
        if c == 0x3E || c == Bytes.space || c == Bytes.tab || c == 0x2F then
          some (Bytes.lowerAscii tag)
        else none
    else none
  | _ => none

def closingTag (tag : Bytes) : Bytes := utf8 "</" ++ tag ++ utf8 ">"

/-- The nodes of the paragraph that ends now, if the scanner is in one. -/
def flush (text : Bytes) : Mode → List Node
  | .paragraph start stop => Inline.nodes start (text.slice start stop)
  | _ => []

/-- The name on a line that starts with colons, without blanks and colons around it. -/
def containerName (line : Bytes) : Bytes :=
  let colons := (line.takeWhile (· == 0x3A)).length
  Bytes.trim (Bytes.trimEndWhile (Bytes.trim (line.drop colons)) (· == 0x3A))

/-- A line of colons: with a name it opens a container, without one it closes the innermost container
    that was opened with at most as many colons. -/
def container (stack : List Opening) (l : Line) : List Opening × List Node :=
  let colons := (l.content.takeWhile (· == 0x3A)).length
  let name := containerName l.content
  if name.isEmpty then
    match stack with
    | [] => ([], [])
    | top :: rest =>
      if colons < top.colons then (stack, [])
      else (rest, [⟨.container, top.name, top.start, l.next, rest.length⟩])
  else (⟨name, colons, l.start⟩ :: stack, [])

/-- A line that no code or literal block claims. -/
def openLine (text : Bytes) (st : State) (l : Line) : State × List Node :=
  let mode := st.mode
  let spaces := (l.content.takeWhile (· == Bytes.space)).length
  let inParagraph := match mode with | .paragraph .. => true | _ => false
  if Bytes.isBlank l.content then ({ st with mode := .idle }, flush text mode)
  else if !inParagraph && Line.indent l.content ≥ 4 then
    ({ st with mode := .indented l.start l.next }, [])
  else match if spaces ≤ 3 then openingFence? (l.content.drop spaces) else none with
    | some (mark, length) => ({ st with mode := .fenced mark length l.start }, flush text mode)
    | none =>
      if spaces == 0 && Bytes.startsWith l.content (utf8 ":::") then
        let (stack, out) := container st.stack l
        (⟨.idle, stack⟩, flush text mode ++ out)
      else match if spaces == 0 && !inParagraph then openingTag? l.content else none with
        | some tag =>
          if Bytes.contains l.content (closingTag tag) then
            ({ st with mode := .idle }, [⟨.html, tag, l.start, l.next, 0⟩])
          else ({ st with mode := .html tag l.start }, [])
        | none =>
          match mode with
          | .paragraph start _ => ({ st with mode := .paragraph start l.stop }, [])
          | _ => ({ st with mode := .paragraph l.start l.stop }, [])

/-- Read one line: the next state and the nodes that are complete. -/
def step (text : Bytes) (st : State) (l : Line) : State × List Node :=
  match st.mode with
  | .fenced mark length start =>
    if closesFence mark length l.content then
      ({ st with mode := .idle }, [⟨.fencedCode, [], start, l.next, 0⟩])
    else (st, [])
  | .html tag start =>
    if Bytes.isBlank l.content then ({ st with mode := .idle }, [⟨.html, tag, start, l.start, 0⟩])
    else if Bytes.contains l.content (closingTag tag) then
      ({ st with mode := .idle }, [⟨.html, tag, start, l.next, 0⟩])
    else (st, [])
  | .indented start stop =>
    if Bytes.isBlank l.content then (st, [])
    else if Line.indent l.content ≥ 4 then ({ st with mode := .indented start l.next }, [])
    else
      let (st', out) := openLine text { st with mode := .idle } l
      (st', ⟨.indentedCode, [], start, stop, 0⟩ :: out)
  | _ => openLine text st l

/-- Containers that the end of the text closes, innermost first. -/
def closeAll (stop : Nat) : List Opening → List Node
  | [] => []
  | top :: rest => ⟨.container, top.name, top.start, stop, rest.length⟩ :: closeAll stop rest

def finish (text : Bytes) (st : State) : List Node :=
  let leaf := match st.mode with
    | .fenced _ _ start => [⟨.fencedCode, [], start, text.length, 0⟩]
    | .html tag start => [⟨.html, tag, start, text.length, 0⟩]
    | .indented start stop => [⟨.indentedCode, [], start, stop, 0⟩]
    | mode => flush text mode
  leaf ++ closeAll text.length st.stack

/-- The nodes of the remaining lines, in the order in which they are completed. -/
def run (text : Bytes) : State → List Line → List Node
  | st, [] => finish text st
  | st, l :: rest =>
    let (st', out) := step text st l
    out ++ run text st' rest

/-- The state before the first line of the body. -/
def State.start : State := ⟨.idle, []⟩

end Colloquy.Document.Block
