import Colloquy.Yaml.Cursor
import Colloquy.Yaml.Token

/-! # Names, tags and directives

Anchors and aliases, tags with their handles and percent escapes, and the two directives that may
stand before a document.
-/

namespace Colloquy.Yaml.Scan

/-- Whether a character may follow the name of an anchor or alias. -/
def endsName : Option Nat → Bool
  | some c =>
    isBlankEnd (some c) || c == 0x3F || c == 0x3A || c == 0x2C || c == 0x5D || c == 0x7D || c == 0x25 ||
    c == 0x40 || c == 0x60
  | none => true

/-- The name behind the mark of an anchor or alias. -/
def name (kind : Bytes → Token.Kind) : Scan Token := do
  let start := (← get).mark
  skip
  need 1
  let chars ← takeWhile isNameChar
  let stop := (← get).mark
  if chars.isEmpty || !endsName (← next) then fail .noName start
  return ⟨kind (Bytes.ofCodes chars), start, stop⟩

def isUriChar (c : Nat) : Bool :=
  isNameChar c || c == 0x3B || c == 0x2F || c == 0x3F || c == 0x3A || c == 0x40 || c == 0x26 || c == 0x3D ||
  c == 0x2B || c == 0x24 || c == 0x2C || c == 0x2E || c == 0x21 || c == 0x7E || c == 0x2A || c == 0x27 ||
  c == 0x28 || c == 0x29 || c == 0x5B || c == 0x5D || c == 0x25

/-- One byte written as a percent sign and two hexadecimal digits. -/
def uriOctet (start : Mark) : Scan UInt8 := do
  need 3
  match (← next), (← ahead 1).bind hexDigit?, (← ahead 2).bind hexDigit? with
  | some 0x25, some high, some low =>
    skip
    skip
    skip
    return (high * 16 + low).toUInt8
  | _, _, _ => fail .uriEscape start

/-- `n` escaped bytes that continue a character. -/
def uriTrailing (start : Mark) : Nat → Scan Bytes
  | 0 => return []
  | n + 1 => do
    let b ← uriOctet start
    if b.toNat / 64 != 2 then fail .uriTrailing start
    return b :: (← uriTrailing start n)

def uriCharacter (start : Mark) : Scan Bytes := do
  let lead ← uriOctet start
  let n := lead.toNat
  if n < 0x80 then return [lead]
  else if n / 32 == 6 then return lead :: (← uriTrailing start 1)
  else if n / 16 == 14 then return lead :: (← uriTrailing start 2)
  else if n / 8 == 30 then return lead :: (← uriTrailing start 3)
  else fail .uriLeading start

/-- The pieces of a tag's text, in reverse. -/
def uriPieces (start : Mark) : (fuel : Nat) → List Bytes → Scan (List Bytes)
  | 0, acc => return acc
  | fuel + 1, acc => do
    match ← next with
    | some c =>
      if c == 0x25 then
        let piece ← uriCharacter start
        need 1
        uriPieces start fuel (piece :: acc)
      else if isUriChar c then
        skip
        need 1
        uriPieces start fuel (Rune.encode c :: acc)
      else return acc
    | none => return acc

/-- The text of a tag. It must not be empty unless `head`, the handle that turned out to be no handle,
    is there; the text then goes on after the head's mark. -/
def uri (start : Mark) (head : Bytes) : Scan Bytes := do
  need 1
  let pieces ← uriPieces start (← get).size []
  if head.isEmpty && pieces.isEmpty then fail .noUri start
  return head.drop 1 ++ pieces.reverse.flatten

/-- A tag handle; in a directive it must end in its mark. -/
def handle (start : Mark) (directive : Bool) : Scan Bytes := do
  need 1
  if (← next) != some 0x21 then fail .noBang start
  skip
  need 1
  let chars ← takeWhile isNameChar
  let body := 0x21 :: Bytes.ofCodes chars
  if (← next) == some 0x21 then
    skip
    return body ++ [0x21]
  else
    if directive && !chars.isEmpty then fail .noBang start
    return body

def tag : Scan Token := do
  let start := (← get).mark
  need 2
  let kind : Token.Kind ←
    if (← ahead 1) == some 0x3C then do
      skip
      skip
      let text ← uri start []
      if (← next) != some 0x3E then fail .noAngle start
      skip
      pure (Token.Kind.tag [] text)
    else do
      let lead ← handle start false
      if lead.length > 1 && lead.getLast? == some 0x21 then
        pure (Token.Kind.tag lead (← uri start []))
      else
        let text ← uri start lead
        pure (if text.isEmpty then Token.Kind.tag [] [0x21] else Token.Kind.tag [0x21] text)
  need 1
  if !isBlankEnd (← next) then fail .tagEnd start
  return ⟨kind, start, (← get).mark⟩

def versionNumber (start : Mark) : Scan Nat := do
  need 1
  let digits ← takeWhile fun c => 0x30 ≤ c && c ≤ 0x39
  if digits.length > 2 then fail .longNumber start
  if digits.isEmpty then fail .noNumber start
  return digits.foldl (fun n c => n * 10 + (c - 0x30)) 0

def version (start : Mark) : Scan Token.Kind := do
  need 1
  blanks
  let major ← versionNumber start
  if (← next) != some 0x2E then fail .noPoint start
  skip
  return .version major (← versionNumber start)

def tagHandle (start : Mark) : Scan Token.Kind := do
  need 1
  blanks
  let lead ← handle start true
  need 1
  if !((← next).map isBlankChar).getD false then fail .noBlank start
  blanks
  let text ← uri start []
  need 1
  if !isBlankEnd (← next) then fail .tagEnd start
  return .handle lead text

def directive : Scan Token := do
  let start := (← get).mark
  skip
  need 1
  let chars ← takeWhile isNameChar
  if chars.isEmpty then fail .noDirectiveName start
  if !isBlankEnd (← next) then fail .directiveNameEnd start
  let kind ←
    if Bytes.ofCodes chars == utf8 "YAML" then version start
    else if Bytes.ofCodes chars == utf8 "TAG" then tagHandle start
    else fail .unknownDirective start
  let stop := (← get).mark
  need 1
  comment
  if !isBreakEnd (← next) then fail .noLineEnd start
  if (← next).isSome then need 2
  let _ ← lineBreak
  return ⟨kind, start, stop⟩

end Colloquy.Yaml.Scan
