import Colloquy.Text.Rune

/-! # Faults in YAML text

What can be wrong with a YAML text, where, and how it is worded. A fault carries the number that its
message shows: lines are counted from zero where the structure of the text is wrong and from one where
a single token is wrong, and line zero is not shown at all.
-/

namespace Colloquy.Yaml

/-- A place between two characters: how many characters, lines and characters of the line stand
    before it. -/
structure Mark where
  index : Nat
  line : Nat
  column : Nat
  deriving Repr, DecidableEq, BEq, Inhabited

/-- What is wrong. -/
inductive Problem
  /-- A byte that starts no character. -/
  | leadingOctet
  /-- The text ends inside a character. -/
  | incompleteOctets
  /-- A byte that continues no character. -/
  | trailingOctet
  /-- A character written in more bytes than it takes. -/
  | overlong
  /-- A surrogate, or a number past U+10FFFF. -/
  | notCharacter
  /-- A character that no YAML text may hold. -/
  | control
  /-- The text ends inside a 16-bit unit. -/
  | incompleteUnit
  /-- A low surrogate first. -/
  | lowSurrogate
  /-- The text ends inside a surrogate pair. -/
  | incompletePair
  /-- A high surrogate without its low one. -/
  | noLowSurrogate
  /-- A key that must be one has no colon. -/
  | noColon
  /-- A dash that starts no entry. -/
  | entryNotAllowed
  /-- A question mark that starts no key. -/
  | keyNotAllowed
  /-- A colon that starts no value. -/
  | valueNotAllowed
  /-- Nesting without end. -/
  | tooDeep
  /-- A character that starts nothing. -/
  | noToken
  /-- An anchor or alias without a name. -/
  | noName
  /-- A verbatim tag without its end. -/
  | noAngle
  /-- A tag that runs into something else. -/
  | tagEnd
  /-- A tag handle without its mark. -/
  | noBang
  /-- A tag without text. -/
  | noUri
  /-- A percent sign without two hexadecimal digits. -/
  | uriEscape
  /-- An escaped byte that starts no character. -/
  | uriLeading
  /-- An escaped byte that continues no character. -/
  | uriTrailing
  /-- A directive without a name. -/
  | noDirectiveName
  /-- A directive's name runs into something else. -/
  | directiveNameEnd
  /-- A directive that is not known. -/
  | unknownDirective
  /-- Something behind a directive or a block scalar's head. -/
  | noLineEnd
  /-- A version without its point. -/
  | noPoint
  /-- A version number with too many digits. -/
  | longNumber
  /-- A version without a number. -/
  | noNumber
  /-- A tag directive without white space behind its handle. -/
  | noBlank
  /-- An indentation of zero. -/
  | zeroIndent
  /-- A tab inside the indentation of a block scalar. -/
  | blockTab
  /-- A tab inside the indentation of a plain scalar. -/
  | plainTab
  /-- A document ends inside quotes. -/
  | quotedDocument
  /-- The text ends inside quotes. -/
  | quotedEnd
  /-- An escape that is not known. -/
  | unknownEscape
  /-- An escape without its hexadecimal digits. -/
  | noHex
  /-- An escape that names no character. -/
  | badEscape
  /-- Directives without a document. -/
  | noDocumentStart
  /-- Two version directives. -/
  | twoVersions
  /-- A version that is not 1.1. -/
  | otherVersion
  /-- Two directives for one tag handle. -/
  | twoHandles
  /-- A tag handle without a directive. -/
  | unknownHandle
  /-- Nothing stands where a node must. -/
  | noNode
  /-- A block mapping holds something else than a key. -/
  | noKey
  /-- A block sequence holds something else than an entry. -/
  | noDash
  /-- A flow sequence without a comma or an end. -/
  | noSequenceEnd
  /-- A flow mapping without a comma or an end. -/
  | noMappingEnd
  /-- An alias of nothing. -/
  | unknownAnchor (name : Bytes)
  /-- Anything else. -/
  | other
  deriving Repr, DecidableEq

def Problem.text : Problem → Bytes
  | .leadingOctet => utf8 "invalid leading UTF-8 octet"
  | .incompleteOctets => utf8 "incomplete UTF-8 octet sequence"
  | .trailingOctet => utf8 "invalid trailing UTF-8 octet"
  | .overlong => utf8 "invalid length of a UTF-8 sequence"
  | .notCharacter => utf8 "invalid Unicode character"
  | .control => utf8 "control characters are not allowed"
  | .incompleteUnit => utf8 "incomplete UTF-16 character"
  | .lowSurrogate => utf8 "unexpected low surrogate area"
  | .incompletePair => utf8 "incomplete UTF-16 surrogate pair"
  | .noLowSurrogate => utf8 "expected low surrogate area"
  | .noColon => utf8 "could not find expected ':'"
  | .entryNotAllowed => utf8 "block sequence entries are not allowed in this context"
  | .keyNotAllowed => utf8 "mapping keys are not allowed in this context"
  | .valueNotAllowed => utf8 "mapping values are not allowed in this context"
  | .tooDeep => utf8 "exceeded max depth of 10000"
  | .noToken => utf8 "found character that cannot start any token"
  | .noName => utf8 "did not find expected alphabetic or numeric character"
  | .noAngle => utf8 "did not find the expected '>'"
  | .tagEnd => utf8 "did not find expected whitespace or line break"
  | .noBang => utf8 "did not find expected '!'"
  | .noUri => utf8 "did not find expected tag URI"
  | .uriEscape => utf8 "did not find URI escaped octet"
  | .uriLeading => utf8 "found an incorrect leading UTF-8 octet"
  | .uriTrailing => utf8 "found an incorrect trailing UTF-8 octet"
  | .noDirectiveName => utf8 "could not find expected directive name"
  | .directiveNameEnd => utf8 "found unexpected non-alphabetical character"
  | .unknownDirective => utf8 "found unknown directive name"
  | .noLineEnd => utf8 "did not find expected comment or line break"
  | .noPoint => utf8 "did not find expected digit or '.' character"
  | .longNumber => utf8 "found extremely long version number"
  | .noNumber => utf8 "did not find expected version number"
  | .noBlank => utf8 "did not find expected whitespace"
  | .zeroIndent => utf8 "found an indentation indicator equal to 0"
  | .blockTab => utf8 "found a tab character where an indentation space is expected"
  | .plainTab => utf8 "found a tab character that violates indentation"
  | .quotedDocument => utf8 "found unexpected document indicator"
  | .quotedEnd => utf8 "found unexpected end of stream"
  | .unknownEscape => utf8 "found unknown escape character"
  | .noHex => utf8 "did not find expected hexdecimal number"
  | .badEscape => utf8 "found invalid Unicode character escape code"
  | .noDocumentStart => utf8 "did not find expected <document start>"
  | .twoVersions => utf8 "found duplicate %YAML directive"
  | .otherVersion => utf8 "found incompatible YAML document"
  | .twoHandles => utf8 "found duplicate %TAG directive"
  | .unknownHandle => utf8 "found undefined tag handle"
  | .noNode => utf8 "did not find expected node content"
  | .noKey => utf8 "did not find expected key"
  | .noDash => utf8 "did not find expected '-' indicator"
  | .noSequenceEnd => utf8 "did not find expected ',' or ']'"
  | .noMappingEnd => utf8 "did not find expected ',' or '\x7d'"
  | .unknownAnchor name => utf8 "unknown anchor '" ++ name ++ utf8 "' referenced"
  | .other => utf8 "unknown problem parsing YAML content"

/-- A problem and the line number that its message shows, where zero stands for none. -/
structure Fault where
  problem : Problem
  line : Nat
  deriving Repr, DecidableEq

namespace Fault

/-- The line of the context in which the problem lies, or else that of the problem itself. -/
def lineOf (context problem : Mark) : Nat := if context.line ≠ 0 then context.line else problem.line

/-- A problem of the characters themselves: no line is known. -/
def ofText (p : Problem) : Fault := ⟨p, 0⟩

def ofToken (p : Problem) (context at_ : Mark) : Fault :=
  let line := lineOf context at_
  ⟨p, if line = 0 then 0 else line + 1⟩

def ofNode (p : Problem) (context at_ : Mark) : Fault := ⟨p, lineOf context at_⟩

/-- The message: the line, if one is shown, and the problem. -/
def message (f : Fault) : Bytes :=
  utf8 "yaml: " ++
    (if f.line = 0 then [] else utf8 "line " ++ Bytes.ofNat f.line ++ utf8 ": ") ++ f.problem.text

end Fault

end Colloquy.Yaml
