import Colloquy.Text.Width

/-! # Terminal styling

Two ways of colouring text for a terminal. A label is coloured when colour is on, and switches each of
its attributes off again. A styled piece is drawn for a terminal of given abilities, in which tabs are
spread to four spaces and lines are drawn one by one and filled up to the same width.
-/

/-! ## Cells of a styled line

How many cells a line takes on a terminal that obeys the commands in it. A command takes no cell, and a
control character neither. Of the rest an ASCII character takes one cell, and what starts with any other
character is a whole cluster, whose marks and selectors may change its width.
-/

namespace Colloquy

namespace Cells

/-- Pictographs that are wide in a run of ideographs and still drawn narrow by themselves. -/
def narrowPictographs : List (Nat × Nat) :=
  [(0x3030, 0x3030), (0x303D, 0x303D), (0x3297, 0x3297), (0x3299, 0x3299), (0x1F202, 0x1F202),
   (0x1F237, 0x1F237), (0x1F260, 0x1F265)]

/-- Wide characters that a terminal of this kind does not know and draws narrow. -/
def unknownRanges : List (Nat × Nat) := [(0x2FFC, 0x2FFF), (0x31EF, 0x31EF)]

def isAmong (ranges : List (Nat × Nat)) (code : Nat) : Bool := ranges.any fun r => r.1 ≤ code && code ≤ r.2

def isWide (code : Nat) : Bool := isInRanges Width.wideRanges code && !isAmong unknownRanges code

def ofCode (code : Nat) : Nat :=
  match Grapheme.classOf code with
  | .carriageReturn => 0
  | .lineFeed => 0
  | .control => 0
  | .extend => 0
  | .joiner => 0
  | .regional => 2
  | .pictograph => if isWide code && !isAmong narrowPictographs code then 2 else 1
  | _ => if code == 0x2E3A then 3 else if code == 0x2E3B then 4 else if isWide code then 2 else 1

/-- A cluster that may still grow: the class of its first character and its cells so far. -/
structure Cluster where
  first : GraphemeClass
  state : Grapheme.State
  width : Nat

namespace Cluster

def start (code : Nat) : Cluster :=
  let c := Grapheme.classOf code
  ⟨c, Grapheme.State.start c, ofCode code⟩

/-- The width behind one more character: a selector decides how a pictograph is drawn, flags and
    syllables keep the width of their first character, and else widths add up. -/
def grown (c : Cluster) (code : Nat) : Nat :=
  match c.first with
  | .pictograph => if code == 0xFE0E then 1 else if code == 0xFE0F then 2 else c.width
  | .regional => c.width
  | .hangulLead => c.width
  | _ => c.width + ofCode code

/-- The cluster with one more character, if that goes on with it. -/
def add? (c : Cluster) (code : Nat) : Option Cluster :=
  let next := Grapheme.classOf code
  if c.state.joins next then some { c with state := c.state.next next, width := c.grown code } else none

end Cluster

/-- Where in a command a terminal is. -/
inductive Mode
  /-- Outside of commands. -/
  | ground
  /-- Behind an escape character. -/
  | escape
  /-- Behind an escape character and intermediate bytes. -/
  | escapeIntermediate
  /-- In the parameters of a control sequence. -/
  | sequence
  /-- In the intermediate bytes of a control sequence. -/
  | sequenceIntermediate
  /-- In a string that is kept for nobody. -/
  | ignoredString
  /-- At the start of a device control string. -/
  | deviceStart
  /-- In the parameters of a device control string. -/
  | deviceParameters
  /-- In the intermediate bytes of a device control string. -/
  | deviceIntermediate
  /-- In the body of a device control string. -/
  | deviceString
  /-- In a command to the system. -/
  | systemString
  deriving Repr, DecidableEq

/-- What a byte does to a line. -/
inductive Effect
  /-- It takes no cell. -/
  | silent
  /-- It is drawn in one cell. -/
  | cell
  /-- It starts a character past ASCII. -/
  | character
  deriving Repr, DecidableEq

namespace Mode

/-- Whether a byte is a control character that does not end a command. -/
def isQuiet (b : UInt8) : Bool := b < 0x20 && b != 0x18 && b != 0x1A && b != 0x1B

/-- What a byte does that has no meaning of its own in a mode. -/
def anywhere (b : UInt8) : Effect × Mode :=
  if b == 0x1B then (.silent, .escape)
  else if b == 0x98 || b == 0x9E || b == 0x9F then (.silent, .ignoredString)
  else if b == 0x9B then (.silent, .sequence)
  else if b == 0x90 then (.silent, .deviceStart)
  else if b == 0x9D then (.silent, .systemString)
  else if 0xC2 ≤ b && b ≤ 0xF4 then (.character, .ground)
  else (.silent, .ground)

/-- What the byte behind an escape character does. -/
def afterEscape (b : UInt8) : Effect × Mode :=
  if isQuiet b || b == 0x7F then (.silent, .escape)
  else if 0x20 ≤ b && b ≤ 0x2F then (.silent, .escapeIntermediate)
  else if b == 0x5B then (.silent, .sequence)
  else if b == 0x5D then (.silent, .systemString)
  else if b == 0x50 then (.silent, .deviceStart)
  else if b == 0x58 || b == 0x5E || b == 0x5F then (.silent, .ignoredString)
  else anywhere b

def afterDevice (b : UInt8) : Effect × Mode :=
  if (0x08 ≤ b && b ≤ 0x0D) || b == 0x1B then (.silent, .deviceString)
  else if isQuiet b || b == 0x7F then (.silent, .deviceStart)
  else if 0x20 ≤ b && b ≤ 0x2F then (.silent, .deviceIntermediate)
  else if 0x30 ≤ b && b ≤ 0x3F then (.silent, .deviceParameters)
  else if 0x40 ≤ b && b ≤ 0x7E then (.silent, .deviceString)
  else anywhere b

/-- What a byte does and the mode behind it. -/
def step (m : Mode) (b : UInt8) : Effect × Mode :=
  match m with
  | .ground => if 0x20 ≤ b && b ≤ 0x7E then (.cell, .ground) else anywhere b
  | .escape => afterEscape b
  | .escapeIntermediate =>
    if isQuiet b || b == 0x7F || (0x20 ≤ b && b ≤ 0x2F) then (.silent, .escapeIntermediate) else anywhere b
  | .sequence =>
    if isQuiet b || b == 0x7F || (0x30 ≤ b && b ≤ 0x3F) then (.silent, .sequence)
    else if 0x20 ≤ b && b ≤ 0x2F then (.silent, .sequenceIntermediate)
    else anywhere b
  | .sequenceIntermediate =>
    if isQuiet b || b == 0x7F || (0x20 ≤ b && b ≤ 0x2F) then (.silent, .sequenceIntermediate) else anywhere b
  | .ignoredString => if isQuiet b || (0x20 ≤ b && b ≤ 0x7F) then (.silent, .ignoredString) else anywhere b
  | .deviceStart => afterDevice b
  | .deviceParameters =>
    if isQuiet b || b == 0x7F || (0x30 ≤ b && b ≤ 0x3F) then (.silent, .deviceParameters)
    else if 0x20 ≤ b && b ≤ 0x2F then (.silent, .deviceIntermediate)
    else if 0x40 ≤ b && b ≤ 0x7E then (.silent, .deviceString)
    else anywhere b
  | .deviceIntermediate =>
    if isQuiet b || b == 0x7F || (0x20 ≤ b && b ≤ 0x2F) then (.silent, .deviceIntermediate)
    else if 0x30 ≤ b && b ≤ 0x7E then (.silent, .deviceString)
    else anywhere b
  | .deviceString =>
    if b == 0x1B then (.silent, .escape)
    else if b == 0x9C || b == 0x18 || b == 0x1A then (.silent, .ground)
    else (.silent, .deviceString)
  | .systemString =>
    if b == 0x1B then (.silent, .escape)
    else if b == 0x07 || b == 0x9C || b == 0x18 || b == 0x1A then (.silent, .ground)
    else (.silent, .systemString)

end Mode

/-- The cells of the rest of a line, behind an open cluster or in a mode; `skip` bytes belong to a
    character already counted. -/
def count (mode : Mode) (cluster : Option Cluster) : (skip : Nat) → Bytes → Nat
  | _, [] => (cluster.map (·.width)).getD 0
  | skip + 1, _ :: rest => count mode cluster skip rest
  | 0, b :: rest =>
    let r := Rune.decode b rest
    match cluster.bind (·.add? r.code) with
    | some c => count .ground (some c) (r.width - 1) rest
    | none =>
      (cluster.map (·.width)).getD 0 +
        match (if cluster.isSome then Mode.ground else mode).step b with
        | (.character, _) => count .ground (some (Cluster.start r.code)) (r.width - 1) rest
        | (.cell, m) => 1 + count m none 0 rest
        | (.silent, m) => count m none 0 rest

def ofLine (t : Bytes) : Nat := count .ground none 0 t

end Cells

/-! ## Colours -/

namespace Style

def escape : Bytes := [0x1B, 0x5B]

def command (attributes : List Nat) : Bytes :=
  escape ++ Bytes.join (utf8 ";") (attributes.map Bytes.ofNat) ++ utf8 "m"

/-- What switches an attribute off: bold has a command of its own. -/
def offOf (code : Nat) : Nat := if code == 1 then 22 else 0

/-- Text with attributes, if colour is on. -/
def label (color : Bool) (attributes : List Nat) (t : Bytes) : Bytes :=
  if color then command attributes ++ t ++ command (attributes.map offOf) else t

/-- What a terminal can show. -/
inductive Terminal
  /-- Nothing but text. -/
  | plain
  /-- Sixteen colours. -/
  | colors
  deriving Repr, DecidableEq, BEq

def line (terminal : Terminal) (attributes : List Nat) (t : Bytes) : Bytes :=
  match terminal with
  | .plain => t
  | .colors => command attributes ++ t ++ command [0]

def fill (lines : List Bytes) : List Bytes :=
  let widest := (lines.map Cells.ofLine).foldl max 0
  lines.map fun l => l ++ List.replicate (widest - Cells.ofLine l) Bytes.space

def piece (terminal : Terminal) (attributes : List Nat) (t : Bytes) : Bytes :=
  let t := Bytes.replaceAll t [Bytes.tab] (utf8 "    ")
  Bytes.join [Bytes.lf] (fill ((Bytes.splitOn t Bytes.lf).map (line terminal attributes)))

end Style

end Colloquy
