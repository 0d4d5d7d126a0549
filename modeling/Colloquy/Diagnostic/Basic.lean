import Colloquy.Text.Span

/-! # Diagnostics

What a check finds: how bad it is, what kind of finding it is, where it lies, what it says, and perhaps
where else to look and how to mend it.
-/

namespace Colloquy

/-- How bad a finding is. -/
structure Severity where
  level : UInt8
  deriving Repr, DecidableEq, BEq, Inhabited

namespace Severity

/-- For information only. -/
def info : Severity := ⟨0⟩

/-- The document works, but not as it should. -/
def warning : Severity := ⟨1⟩

/-- The document does not work. -/
def error : Severity := ⟨2⟩

def label (s : Severity) : Bytes :=
  if s == info then utf8 "INFO" else if s == warning then utf8 "WARNING" else if s == error then utf8 "ERROR"
  else utf8 "UNKNOWN"

def editorNumber (s : Severity) : Nat := if s == error then 1 else if s == warning then 2 else 3

end Severity

/-- What kind of finding it is. -/
structure Code where
  number : UInt16
  deriving Repr, DecidableEq, BEq, Inhabited

namespace Code

def headerMissing : Code := ⟨1001⟩
def headerFault : Code := ⟨1002⟩
def duplicateName : Code := ⟨1003⟩
def duplicateMacro : Code := ⟨1004⟩
def missingPrompt : Code := ⟨1005⟩
def hooksNotList : Code := ⟨1006⟩
def hookWithoutAction : Code := ⟨1007⟩
def unknownEvent : Code := ⟨1008⟩
def unknownInterlocutor : Code := ⟨2001⟩
def unknownAgent : Code := ⟨2002⟩
def unknownKit : Code := ⟨2003⟩
def relativeFileUrl : Code := ⟨3001⟩
def unknownModel : Code := ⟨4001⟩

/-- The title of findings with no code of their own. -/
def unknownTitle : String := "Unknown error"

def titles : List (Code × String) := [
  (headerMissing, "Missing header"), (headerFault, "Invalid YAML"),
  (duplicateName, "Duplicate interlocutor name"), (duplicateMacro, "Duplicate macro name"),
  (missingPrompt, "Missing prompt"), (hooksNotList, "Hooks must be a list"),
  (hookWithoutAction, "Hook without do"), (unknownEvent, "Unknown hook event"),
  (unknownInterlocutor, "Unknown interlocutor"), (unknownAgent, "Unknown agent tool target"),
  (unknownKit, "Unknown kit"), (relativeFileUrl, "Relative file URL"), (unknownModel, "Unknown model")]

/-- The code as it is shown: its number in at least four digits. -/
def id (c : Code) : Bytes :=
  let digits := Bytes.ofNat c.number.toNat
  utf8 "LEC" ++ List.replicate (4 - digits.length) 0x30 ++ digits

def title (c : Code) : Bytes :=
  match titles.find? fun entry => entry.1 == c with
  | some entry => utf8 entry.2
  | none => utf8 unknownTitle

def render (c : Code) : Bytes := utf8 "[" ++ c.id ++ utf8 "]: " ++ c.title

end Code

/-- Another place that belongs to a finding. -/
structure Note where
  span : Span
  message : Bytes
  deriving Repr, DecidableEq, BEq

/-- The text that is to stand in the place of a span. -/
structure Edit where
  span : Span
  text : Bytes
  deriving Repr, DecidableEq, BEq

/-- A way to mend a finding. -/
structure Fix where
  title : Bytes
  edits : List Edit
  isPreferred : Bool
  deriving Repr, DecidableEq, BEq

/-- A finding. -/
structure Diagnostic where
  severity : Severity
  code : Code
  message : Bytes
  span : Span
  notes : List Note
  fixes : List Fix
  deriving Repr, DecidableEq, BEq

namespace Diagnostic

/-- A finding without notes and fixes. -/
def of (severity : Severity) (code : Code) (span : Span) (message : Bytes) : Diagnostic :=
  ⟨severity, code, message, span, [], []⟩

def error (code : Code) (span : Span) (message : Bytes) : Diagnostic := of .error code span message

def warning (code : Code) (span : Span) (message : Bytes) : Diagnostic := of .warning code span message

def withNote (d : Diagnostic) (span : Span) (message : Bytes) : Diagnostic :=
  { d with notes := d.notes ++ [⟨span, message⟩] }

/-- With one more fix; the first one is preferred. -/
def withFix (d : Diagnostic) (title : Bytes) (edits : List Edit) : Diagnostic :=
  { d with fixes := d.fixes ++ [⟨title, edits, d.fixes.isEmpty⟩] }

def isError (d : Diagnostic) : Bool := Severity.error.level ≤ d.severity.level

/-- Whether `a` may stand before `b` in a report: by start, by end, worse first, by code. -/
def le (a b : Diagnostic) : Bool :=
  if a.span.start ≠ b.span.start then a.span.start < b.span.start
  else if a.span.stop ≠ b.span.stop then a.span.stop < b.span.stop
  else if a.severity ≠ b.severity then b.severity.level < a.severity.level
  else a.code.number ≤ b.code.number

/-- The text that findings of one kind, place and wording share. -/
def key (d : Diagnostic) : Bytes :=
  Bytes.ofNat d.code.number.toNat ++ utf8 ":" ++ d.span.render ++ utf8 ":" ++ d.message

end Diagnostic

end Colloquy
