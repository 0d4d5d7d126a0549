import Colloquy.Yaml.Cursor
import Colloquy.Yaml.Token

/-! # Scalars

The four ways to write a scalar: plain, quoted (single or double), and as a literal or folded block.
Line breaks inside plain and quoted scalars and folded blocks are folded: a single break is a space,
and of several breaks all but the first stay.
-/

namespace Colloquy.Yaml

/-- The white space between two words of a scalar that may run over several lines. -/
structure Gap where
  /-- Blanks, when there is no line break. -/
  blanks : List Nat
  /-- Whether the words stand on different lines. -/
  broken : Bool
  /-- What the first line break adds. -/
  first : List Nat
  /-- What the other line breaks add. -/
  more : List Nat
  deriving Repr, DecidableEq

namespace Gap

def empty : Gap := ⟨[], false, [], []⟩

def text (g : Gap) : List Nat :=
  if !g.broken then g.blanks
  else if g.first.head? == some 0x0A then (if g.more.isEmpty then [0x20] else g.more)
  else g.first ++ g.more

end Gap

namespace Scan

/-- Read white space into a gap. A plain scalar that starts at `start` allows no tab before column
    `indent` of a later line. -/
def gap (tabs : Option (Mark × Nat)) : (fuel : Nat) → Gap → Scan Gap
  | 0, g => return g
  | fuel + 1, g => do
    match ← next with
    | none => return g
    | some c =>
      if isBlankChar c then
        match tabs with
        | some (start, indent) =>
          if g.broken && c == 0x09 && (← get).mark.column < indent then fail .plainTab start
        | none => pure ()
        skip
        need 1
        gap tabs fuel (if g.broken then g else { g with blanks := g.blanks ++ [c] })
      else if isBreak c then
        need 2
        let added ← lineBreak
        need 1
        gap tabs fuel
          (if g.broken then { g with more := g.more ++ added } else ⟨[], true, added, g.more⟩)
      else return g

def atMarker : Scan Bool := do
  let c ← get
  return c.mark.column == 0 && (startsMarker 0x2D c.rest || startsMarker 0x2E c.rest)

/-- Whether a plain scalar ends before character `c`, which `following` follows. -/
def endsPlain (flow : Bool) (c : Nat) (following : Option Nat) : Bool :=
  isBlankEnd (some c) || (c == 0x3A && isBlankEnd following) ||
  (flow && (c == 0x2C || c == 0x3F || c == 0x5B || c == 0x5D || c == 0x7B || c == 0x7D))

/-- The characters of a plain scalar that follow without white space behind those read so far, which are
    in reverse. -/
def plainRun (flow : Bool) : (fuel : Nat) → List Nat → Scan (List Nat)
  | 0, acc => return acc.reverse
  | fuel + 1, acc => do
    match ← next with
    | some c =>
      if endsPlain flow c (← ahead 1) then return acc.reverse
      else
        skip
        need 2
        plainRun flow fuel (c :: acc)
    | none => return acc.reverse

/-- Past `n` characters at hand, none of which is a line break. -/
def taken : (n : Nat) → Scan Unit
  | 0 => return ()
  | n + 1 => do
    skip
    taken n

/-- The words of a plain scalar, in reverse; the place behind the last; and whether a line break
    follows it. -/
def plainWords (flow : Bool) (indent : Nat) (start : Mark) :
    (fuel : Nat) → List (List Nat) → Gap → Mark → Scan (List (List Nat) × Mark × Bool)
  | 0, words, g, stop => return (words, stop, g.broken)
  | fuel + 1, words, g, stop => do
    need 4
    if ← atMarker then return (words, stop, g.broken)
    if (← next) == some 0x23 then return (words, stop, g.broken)
    let word ← plainRun flow (← get).size []
    let reached := (← get).mark
    let (words, g, stop) :=
      if word.isEmpty then (words, g, stop) else (word :: g.text :: words, Gap.empty, reached)
    match ← next with
    | some c =>
      if !(isBlankChar c || isBreak c) then return (words, stop, g.broken)
      let g ← gap (some (start, indent)) (← get).size g
      if !flow && (← get).mark.column < indent then return (words, stop, g.broken)
      plainWords flow indent start fuel words g stop
    | none => return (words, stop, g.broken)

/-- A plain scalar; whether a line break follows it. Inside brackets (`flow`) it also ends at their
    punctuation; outside it ends at a line that is indented less than `indent`. -/
def plain (flow : Bool) (indent : Nat) : Scan (Token × Bool) := do
  let start := (← get).mark
  let (words, stop, broken) ← plainWords flow indent start (← get).size [] Gap.empty start
  return (⟨.scalar (Bytes.ofCodes words.reverse.flatten) .plain, start, stop⟩, broken)

def shortEscape? (c : Nat) : Option Nat :=
  if c == 0x30 then some 0
  else if c == 0x61 then some 0x07
  else if c == 0x62 then some 0x08
  else if c == 0x74 || c == 0x09 then some 0x09
  else if c == 0x6E then some 0x0A
  else if c == 0x76 then some 0x0B
  else if c == 0x66 then some 0x0C
  else if c == 0x72 then some 0x0D
  else if c == 0x65 then some 0x1B
  else if c == 0x20 || c == 0x22 || c == 0x27 || c == 0x5C then some c
  else if c == 0x4E then some 0x85
  else if c == 0x5F then some 0xA0
  else if c == 0x4C then some 0x2028
  else if c == 0x50 then some 0x2029
  else none

def escapeDigits? (c : Nat) : Option Nat :=
  if c == 0x78 then some 2 else if c == 0x75 then some 4 else if c == 0x55 then some 8 else none

/-- The number that `n` hexadecimal digits spell. -/
def hexNumber (start : Mark) (n : Nat) : Scan Nat := do
  need n
  let digits := ((← get).rest.take n).map hexDigit?
  if digits.length < n || digits.any (·.isNone) then fail .noHex start
  let value := digits.foldl (fun v d => v * 16 + d.getD 0) 0
  if (0xD800 ≤ value && value ≤ 0xDFFF) || 0x10FFFF < value then fail .badEscape start
  taken n
  return value

/-- The visible characters of a quoted scalar up to white space, the closing quote or the end of the
    text, in reverse; and whether they ended in an escaped line break. -/
def quotedRun (single : Bool) (start : Mark) : (fuel : Nat) → List Nat → Scan (List Nat × Bool)
  | 0, acc => return (acc, false)
  | fuel + 1, acc => do
    let c := (← next).getD 0x20
    let following ← ahead 1
    if isBlankEnd (some c) then return (acc, false)
    else if single && c == 0x27 then
      if following == some 0x27 then
        skip
        skip
        need 2
        quotedRun single start fuel (0x27 :: acc)
      else return (acc, false)
    else if !single && c == 0x22 then return (acc, false)
    else if !single && c == 0x5C then
      if (following.map isBreak).getD false then
        need 3
        skip
        let _ ← lineBreak
        return (acc, true)
      else match following.bind shortEscape? with
        | some e => do
          skip
          skip
          need 2
          quotedRun single start fuel (e :: acc)
        | none => match following.bind escapeDigits? with
          | some n => do
            skip
            skip
            let value ← hexNumber start n
            need 2
            quotedRun single start fuel (value :: acc)
          | none => fail .unknownEscape start
    else
      skip
      need 2
      quotedRun single start fuel (c :: acc)

/-- The words of a quoted scalar, in reverse. -/
def quotedWords (single : Bool) (start : Mark) : (fuel : Nat) → List (List Nat) → Scan (List (List Nat))
  | 0, words => return words
  | fuel + 1, words => do
    need 4
    if ← atMarker then fail .quotedDocument start
    if (← next).isNone then fail .quotedEnd start
    let (chars, escaped) ← quotedRun single start (← get).size []
    need 1
    if (← next) == some (if single then 0x27 else 0x22) then return chars.reverse :: words
    let g ← gap none (← get).size ⟨[], escaped, [], []⟩
    quotedWords single start fuel (g.text :: chars.reverse :: words)

def quoted (single : Bool) : Scan Token := do
  let start := (← get).mark
  skip
  let words ← quotedWords single start (← get).size []
  skip
  let stop := (← get).mark
  return ⟨.scalar (Bytes.ofCodes words.reverse.flatten) (if single then .singleQuoted else .doubleQuoted),
    start, stop⟩

/-- What happens to the line breaks at the end of a block scalar. -/
inductive Chomp
  | strip
  | clip
  | keep
  deriving Repr, DecidableEq

/-- The chomping indicator, if one follows. -/
def chomp? : Scan (Option Chomp) := do
  match ← next with
  | some 0x2B =>
    skip
    return some .keep
  | some 0x2D =>
    skip
    return some .strip
  | _ => return none

/-- The indentation indicator, if one follows. -/
def indentation (start : Mark) : Scan Nat := do
  match ← next with
  | some c =>
    if 0x30 ≤ c && c ≤ 0x39 then
      if c == 0x30 then fail .zeroIndent start
      skip
      return c - 0x30
    else return 0
  | none => return 0

/-- The two indicators of a block scalar, in either order. -/
def blockHead (start : Mark) : Scan (Chomp × Nat) := do
  need 1
  match ← chomp? with
  | some chomp =>
    need 1
    return (chomp, ← indentation start)
  | none =>
    let n ← indentation start
    if n == 0 then return (.clip, 0)
    need 1
    return ((← chomp?).getD .clip, n)

/-- Past the spaces of an indentation; an `indent` of zero has no end. -/
def indentSpaces (indent : Nat) : (fuel : Nat) → Scan Unit
  | 0 => return ()
  | fuel + 1 => do
    if (indent == 0 || (← get).mark.column < indent) && (← next) == some 0x20 then
      skip
      need 1
      indentSpaces indent fuel

/-- Past indentation and empty lines of a block scalar. An `indent` of zero is not known yet: the
    deepest line seen sets it. Gives the indentation, what the breaks add and the place behind them. -/
def blockBreaks (start : Mark) (outer : Int) (indent : Nat) :
    (fuel deepest : Nat) → List Nat → Mark → Scan (Nat × List Nat × Mark)
  | 0, _, breaks, stop => return (max indent 1, breaks, stop)
  | fuel + 1, deepest, breaks, stop => do
    need 1
    indentSpaces indent (← get).size
    let column := (← get).mark.column
    let deepest := max deepest column
    if (indent == 0 || column < indent) && (← next) == some 0x09 then fail .blockTab start
    if ((← next).map isBreak).getD false then
      need 2
      let added ← lineBreak
      blockBreaks start outer indent fuel deepest (breaks ++ added) (← get).mark
    else
      return (if indent == 0 then max (max deepest (outer + 1).toNat) 1 else indent, breaks, stop)

/-- The content lines of a block scalar, in reverse, and the breaks behind them. -/
def blockLines (folded : Bool) (start : Mark) (outer : Int) (indent : Nat) :
    (fuel : Nat) → List (List Nat) → (first more : List Nat) → (leadingBlank : Bool) → Mark →
    Scan (List (List Nat) × List Nat × List Nat × Mark)
  | 0, lines, first, more, _, stop => return (lines, first, more, stop)
  | fuel + 1, lines, first, more, leadingBlank, stop => do
    match ← next with
    | none => return (lines, first, more, stop)
    | some c =>
      if (← get).mark.column != indent then return (lines, first, more, stop)
      let blank := isBlankChar c
      let joint :=
        if folded && !leadingBlank && !blank && first.head? == some 0x0A then
          (if more.isEmpty then [0x20] else [])
        else first
      let line ← takeWhile fun c => !isBreak c
      need 2
      let first ← lineBreak
      let (_, rest, stop) ← blockBreaks start outer indent (← get).size 0 [] (← get).mark
      blockLines folded start outer indent fuel (line :: more :: joint :: lines) first rest blank stop

/-- A block scalar inside a collection indented by `outer`. -/
def block (folded : Bool) (outer : Int) : Scan Token := do
  let start := (← get).mark
  skip
  let (chomp, increment) ← blockHead start
  need 1
  comment
  if !isBreakEnd (← next) then fail .noLineEnd start
  if (← next).isSome then need 2
  let _ ← lineBreak
  let given := if increment == 0 then 0 else if 0 ≤ outer then outer.toNat + increment else increment
  let (indent, more, stop) ← blockBreaks start outer given (← get).size 0 [] (← get).mark
  need 1
  let (lines, first, more, stop) ←
    blockLines folded start outer indent (← get).size [] [] more false stop
  let tail := match chomp with
    | .strip => []
    | .clip => first
    | .keep => first ++ more
  return ⟨.scalar (Bytes.ofCodes (lines.reverse.flatten ++ tail)) (if folded then .folded else .literal),
    start, stop⟩

end Scan

end Colloquy.Yaml
