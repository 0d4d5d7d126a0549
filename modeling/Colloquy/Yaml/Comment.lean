import Colloquy.Yaml.Cursor

/-! # Comments

Comments say nothing, but they decide where a block is said to end: before the comments that follow it at
its own indentation. So the comments before a token are remembered with their places. Comment lines that
follow each other are one comment, unless a later line is indented less than the block that is open, or
an empty line sets off a comment that belongs to what stands before it.
-/

namespace Colloquy.Yaml

/-- A comment before a token. -/
structure Comment where
  /-- Where the white space before it starts. -/
  lead : Nat
  /-- Where it starts; the column is counted from one. -/
  start : Mark
  /-- How far it goes. -/
  stop : Nat
  deriving Repr, DecidableEq

namespace Comment

/-- Where a block at column `indent` ends: at the earliest comment at that column among those that reach
    back from the next token without a gap, else at `mark`. The comments are given latest first, and
    `reached` is how far back they must go. -/
def blockEnd (indent : Int) : List Comment → (reached : Int) → Mark → Mark
  | [], _, mark => mark
  | c :: earlier, reached, mark =>
    if c.stop < reached then mark
    else blockEnd indent earlier c.lead (if c.start.column == indent + 1 then c.start else mark)

end Comment

/-- What is known while comment lines are read. -/
structure Remarks where
  /-- The comments read, latest first. -/
  found : List Comment
  /-- Where the comment starts that is being read. -/
  opened : Option Mark
  /-- Where the white space before it starts. -/
  lead : Nat
  line : Nat
  column : Nat
  /-- How many characters were looked at past the place reached. -/
  seen : Nat
  /-- Whether no empty line stands between the comment and what is before it. -/
  adjacent : Bool
  /-- Whether the last line was empty. -/
  afterEmpty : Bool
  deriving Repr

namespace Remarks

/-- The comment that is being read ends at `stop`, and what follows starts at `next`. -/
def close (r : Remarks) (stop next : Nat) : Remarks :=
  match r.opened with
  | none => r
  | some start => { r with found := ⟨r.lead, start, stop⟩ :: r.found, opened := none, lead := next }

/-- The comment that is being read ends before the character looked at; `here` is the place reached. -/
def cut (r : Remarks) (here : Nat) : Remarks := r.close (here + r.seen) (here + r.seen)

def startLine (r : Remarks) (here : Nat) : Remarks :=
  { r with opened := r.opened.or (some ⟨here + r.seen, r.line, r.column⟩), afterEmpty := false }

/-- The line of a comment that was read ends at `mark`, and the line behind it is looked at next. -/
def endLine (r : Remarks) (mark : Mark) : Remarks := { r with seen := 1, column := 0, line := mark.line }

/-- An empty line was looked at. -/
def emptyLine (r : Remarks) : Remarks :=
  { r with adjacent := false, afterEmpty := true, column := 0, line := r.line + 1, seen := r.seen + 1 }

end Remarks

/-- What surrounds a comment. -/
structure Surroundings where
  /-- Whether the comment stands between brackets. -/
  flow : Bool
  /-- The column of the block that is open. -/
  indent : Nat
  /-- The line in which a comment belongs to what stands before it. -/
  footLine : Int
  deriving Repr

namespace Surroundings

/-- Whether an empty line sets off the comment that starts at `start` from what follows. -/
def setsOff (s : Surroundings) (start : Mark) : Bool := start.line == s.footLine || start.column ≤ s.indent

/-- Whether a comment line at `column` is no part of the comment that starts at `start`. -/
def splits (s : Surroundings) (column : Nat) (start : Mark) : Bool := column ≤ s.indent && column != start.column

end Surroundings

namespace Scan

def commentReach : Nat := 512

/-- Past blanks and line breaks to character `target` of the text. -/
def toCharacter (target : Nat) : (fuel : Nat) → Scan Unit
  | 0 => return ()
  | fuel + 1 => do
    need 1
    if (← get).mark.index < target then
      if isBreakEnd (← next) then
        need 2
        let _ ← lineBreak
      else skip
      toCharacter target fuel

/-- Read the comment lines from here on: white space and line breaks between them are looked over, and
    skipped only when a comment follows. A line break outside ASCII is not looked behind. -/
def commentLines (s : Surroundings) : (fuel : Nat) → Remarks → Scan Remarks
  | 0, r => return r
  | fuel + 1, r => do
    if commentReach ≤ r.seen then return r
    if !(← reach (r.seen + 1)) then return r
    let here := (← get).mark.index
    let looked ← ahead r.seen
    let r := { r with column := r.column + 1 }
    if (looked.map isBlankChar).getD false then commentLines s fuel { r with seen := r.seen + 1 }
    else if s.flow && (looked == some 0x5D || looked == some 0x7D) then return r.cut here
    else if isBreakEnd looked then
      let r := if !r.afterEmpty && r.adjacent && (r.opened.map s.setsOff).getD false then r.cut here else r
      match looked with
      | none => return r
      | some c =>
        let r := r.emptyLine
        if c < 0x80 then commentLines s fuel r
        else if commentReach ≤ r.seen then return r
        else if !(← reach (r.seen + 1)) then return r
        else
          let r := { r with column := 1 }
          return if (r.opened.map (s.splits r.column)).getD false then r.cut here else r
    else
      let r := if (r.opened.map (s.splits r.column)).getD false then r.cut here else r
      if looked != some 0x23 then return r
      let r := r.startLine here
      toCharacter (here + r.seen) (r.seen + 2)
      let _ ← takeWhile fun c => !isBreak c
      commentLines s fuel (r.endLine (← get).mark)

/-- The comment here and the comment lines that follow it, latest first; `lead` is where the white space
    before it starts, and `afterValue` tells whether it follows a colon. -/
def comments (lead : Mark) (flow : Bool) (indent : Nat) (afterValue : Bool) : Scan (List Comment) := do
  let c ← get
  let foot : Int := c.mark.line - c.newlines + 1 + (if c.newlines == 0 && 1 < c.mark.column then 1 else 0)
  let s : Surroundings := ⟨flow, indent, if 0 < lead.line && !afterValue then foot else -1⟩
  let r ← commentLines s (2 * c.size + 8) ⟨[], none, lead.index, c.mark.line, c.mark.column, 0, c.newlines ≤ 1, false⟩
  let here := (← get).mark.index
  return (r.close (here + r.seen - 1) here).found

/-- The comment on the line of the token just read, if there is one: no white space need stand before
    it. -/
def lineCommentFrom : (fuel : Nat) → (seen : Nat) → Scan Unit
  | 0, _ => return ()
  | fuel + 1, seen => do
    if ← reach (seen + 1) then
      let looked ← ahead seen
      if (looked.map isBlankChar).getD false then lineCommentFrom fuel (seen + 1)
      else if looked == some 0x23 then
        let _ ← takeWhile isBlankChar
        let _ ← takeWhile fun x => !isBreak x

/-- The comment on the line of the token just read, if there is one. -/
def lineComment : Scan Unit := do
  if (← get).newlines == 0 then lineCommentFrom commentReach 0

end Scan

end Colloquy.Yaml
