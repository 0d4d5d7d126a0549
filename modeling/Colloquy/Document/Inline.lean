import Colloquy.Document.Node
import Colloquy.Text.Bytes

/-! # Inline constructs

Text directives and links inside one paragraph. Each construct is recognised by its own function,
which says how many bytes it takes; the scan goes from left to right, takes a construct where one
starts and moves on behind it. Code spans and escaped bytes hold no constructs. The contents of a
directive's brackets are scanned again, so directives may nest.
-/

/-! ## Brackets

Finding the bracket that closes an opening one. Brackets nest, and a backslash takes the special
meaning from the byte behind it.
-/

namespace Colloquy.Document

namespace Bracket

abbrev backslash : UInt8 := 0x5C

/-- Read on at offset `pos` with `depth` brackets open. -/
def closingFrom (left right : UInt8) : (escaped : Bool) → (depth : Int) → (pos : Nat) → Bytes → Option Nat
  | _, _, _, [] => none
  | true, depth, pos, _ :: rest => closingFrom left right false depth (pos + 1) rest
  | false, depth, pos, b :: rest =>
    if b == backslash then closingFrom left right true depth (pos + 1) rest
    else if b == left then closingFrom left right false (depth + 1) (pos + 1) rest
    else if b == right then
      if depth == 1 then some pos else closingFrom left right false (depth - 1) (pos + 1) rest
    else closingFrom left right false depth (pos + 1) rest

/-- The offset of the bracket that closes the one at the start of `t`. -/
def closing? (left right : UInt8) (t : Bytes) : Option Nat := closingFrom left right false 0 0 t

/-- The offset of the square bracket that closes the one at the start. -/
def square? (t : Bytes) : Option Nat := closing? 0x5B 0x5D t

def brace? (t : Bytes) : Option Nat := closing? 0x7B 0x7D t

/-- The offset of the parenthesis that closes the one at the start. -/
def paren? (t : Bytes) : Option Nat := closing? 0x28 0x29 t

end Bracket

/-! ## Constructs -/

namespace Inline

/-- A byte that may follow the first letter of a directive's name. -/
def isNameByte (b : UInt8) : Bool := Bytes.isLetter b || Bytes.isDigit b || b == 0x5F || b == 0x2D

/-- A byte that may follow the first letter of a URI scheme. -/
def isSchemeByte (b : UInt8) : Bool :=
  Bytes.isLetter b || Bytes.isDigit b || b == 0x2B || b == 0x2E || b == 0x2D

/-- The parts of a directive behind its colon. -/
structure DirectiveParts where
  name : Bytes
  /-- What stands between the brackets. -/
  inner : Bytes
  /-- How many bytes the attributes in braces take; zero when there are none. -/
  attributes : Nat

/-- The number of bytes of the directive, its colon included. -/
def DirectiveParts.length (d : DirectiveParts) : Nat :=
  1 + d.name.length + (d.inner.length + 2) + d.attributes

def attributesLength (t : Bytes) : Nat :=
  if t.head? == some 0x7B then ((Bracket.brace? t).map (· + 1)).getD 0 else 0

/-- The directive whose colon stands right before `t`. -/
def directive? (t : Bytes) : Option DirectiveParts :=
  match t with
  | [] => none
  | b :: _ =>
    if !Bytes.isLetter b then none
    else
      let name := t.takeWhile isNameByte
      let rest := t.dropWhile isNameByte
      if rest.head? != some 0x5B then none
      else match Bracket.square? rest with
        | none => none
        | some close =>
          some ⟨name, Bytes.slice rest 1 close, attributesLength (rest.drop (close + 1))⟩

/-- Whether a colon behind `before` may start a directive: not behind another colon, a letter or a
    digit. -/
def mayStartDirective (before : Option UInt8) : Bool :=
  match before with
  | none => true
  | some b => !(b == 0x3A || Bytes.isLetter b || Bytes.isDigit b)

/-- The directive whose colon stands between `before` and `t`. -/
def directiveAt? (before : Option UInt8) (t : Bytes) : Option DirectiveParts :=
  if mayStartDirective before then directive? t else none

/-- The contents of a directive's brackets are no longer than the text behind its colon. -/
theorem length_inner_le_of_directiveAt? {before : Option UInt8} {t : Bytes} {d : DirectiveParts}
    (h : directiveAt? before t = some d) : d.inner.length ≤ t.length := by
  unfold directiveAt? directive? at h
  have hdrop : (t.dropWhile isNameByte).length ≤ t.length := by
    simpa using (List.dropWhile_suffix (l := t) isNameByte).length_le
  split at h
  · split at h
    · simp at h
    · split at h
      · simp at h
      · dsimp only at h
        split at h
        · simp at h
        · split at h
          · simp at h
          · simp only [Option.some.injEq] at h
            subst h
            simp only [Bytes.slice, List.length_take, List.length_drop]
            omega
  · simp at h

/-- In a destination in angle brackets, the offset of the closing `>`, counted from `pos`. It lies on
    the same line. -/
def angleFrom : (escaped : Bool) → (pos : Nat) → Bytes → Option Nat
  | _, _, [] => none
  | true, pos, _ :: rest => angleFrom false (pos + 1) rest
  | false, pos, b :: rest =>
    if b == Bracket.backslash then angleFrom true (pos + 1) rest
    else if b == 0x3E then some pos
    else if b == Bytes.lf then none
    else angleFrom false (pos + 1) rest

/-- The offset of the parenthesis that ends the link destination at the start of `t`, which begins
    with an opening parenthesis. -/
def destination? (t : Bytes) : Option Nat :=
  let blanks := (t.drop 1).takeWhile Bytes.isBlankByte
  let rest := t.drop (1 + blanks.length)
  if rest.head? == some 0x3C then
    match angleFrom false 0 (rest.drop 1) with
    | none => none
    | some angle =>
      let behind := rest.drop (angle + 2)
      (Bytes.indexOf? behind 0x29).map (· + (1 + blanks.length + angle + 2))
  else Bracket.paren? t

/-- The number of bytes of the link definition whose label's closing bracket stands right before `t`,
    which begins with a colon. -/
def definition? (t : Bytes) : Option Nat :=
  let blanks := (t.drop 1).takeWhile Bytes.isBlankByte
  let target := (t.drop (1 + blanks.length)).takeWhile fun b => !Bytes.isSpaceByte b
  if target.isEmpty then none else some (1 + blanks.length + target.length)

/-- The number of bytes of the link, image or link definition at the start of `t`. A definition starts
    a line, so what stands before it matters. -/
def link? (before : Option UInt8) (t : Bytes) : Option Nat :=
  let bang := if t.head? == some 0x21 then 1 else 0
  match Bracket.square? (t.drop bang) with
  | none => none
  | some close =>
    let rest := t.drop (bang + close + 1)
    match rest.head? with
    | some 0x28 => (destination? rest).map (bang + close + 1 + · + 1)
    | some 0x3A =>
      if bang == 0 && (before == none || before == some Bytes.lf) then
        (definition? rest).map (close + 1 + ·)
      else none
    | _ => none

/-- The bytes of an autolink up to its closing `>`, counted from `pos`. -/
def autolinkEnd (pos : Nat) : Bytes → Option Nat
  | [] => none
  | b :: rest =>
    if b == 0x3E then some pos
    else if b == 0x3C || Bytes.isSpaceByte b then none
    else autolinkEnd (pos + 1) rest

/-- The number of bytes of the autolink whose `<` stands right before `t`, the `<` included. Its scheme
    has at least two bytes. -/
def autolink? (t : Bytes) : Option Nat :=
  match t with
  | [] => none
  | b :: _ =>
    if !Bytes.isLetter b then none
    else
      let scheme := t.takeWhile isSchemeByte
      let rest := t.dropWhile isSchemeByte
      if rest.head? != some 0x3A || scheme.length < 2 then none
      else (autolinkEnd 0 (rest.drop 1)).map (1 + scheme.length + 1 + · + 1)

/-- Where a run of exactly `n` backticks ends, counted from `pos`; `run` backticks have just been
    read. -/
def backticksEnd (n : Nat) : (run pos : Nat) → Bytes → Option Nat
  | run, pos, [] => if run == n then some pos else none
  | run, pos, b :: rest =>
    if b == 0x60 then backticksEnd n (run + 1) (pos + 1) rest
    else if run == n then some pos
    else backticksEnd n 0 (pos + 1) rest

/-- The number of bytes of the code span at the start of `t`, which begins with a backtick. Without a
    closing run of the same length the opening run is plain text. -/
def codeSpanLength (t : Bytes) : Nat :=
  let n := (t.takeWhile (· == 0x60)).length
  (backticksEnd n 0 n (t.drop n)).getD n

/-- The byte before the rest of the text, once `n` bytes of `t` are passed. -/
def lastOf (t : Bytes) (n : Nat) : Option UInt8 := t[n - 1]?

/-- The nodes of the text `t` that starts at offset `pos`, with the byte `before` in front of it in the
    same stretch. -/
def scan (before : Option UInt8) (pos : Nat) (t : Bytes) : List Node :=
  match t with
  | [] => []
  | b :: rest =>
    if b == Bracket.backslash then scan rest.head? (pos + 2) (rest.drop 1)
    else if b == 0x60 then
      let n := codeSpanLength (b :: rest)
      scan (lastOf (b :: rest) n) (pos + n) (rest.drop (n - 1))
    else if b == 0x3A then
      match h : directiveAt? before rest with
      | some d =>
        ⟨.directive, d.name, pos, pos + d.length, 0⟩ ::
          (scan none (pos + d.name.length + 2) d.inner ++
            scan (lastOf (b :: rest) d.length) (pos + d.length) (rest.drop (d.length - 1)))
      | none => scan (some b) (pos + 1) rest
    else if b == 0x5B || (b == 0x21 && rest.head? == some 0x5B) then
      match link? before (b :: rest) with
      | some n =>
        ⟨.link, [], pos, pos + n, 0⟩ :: scan (lastOf (b :: rest) n) (pos + n) (rest.drop (n - 1))
      | none => scan (some b) (pos + 1) rest
    else if b == 0x3C then
      match autolink? rest with
      | some n =>
        ⟨.link, [], pos, pos + n, 0⟩ :: scan (lastOf (b :: rest) n) (pos + n) (rest.drop (n - 1))
      | none => scan (some b) (pos + 1) rest
    else scan (some b) (pos + 1) rest
termination_by t.length
decreasing_by
  all_goals simp only [List.length_cons, List.length_drop]
  all_goals try have := length_inner_le_of_directiveAt? h
  all_goals omega

/-- The nodes of a paragraph that starts at offset `start`. -/
def nodes (start : Nat) (t : Bytes) : List Node := scan none start t

end Inline

end Colloquy.Document
