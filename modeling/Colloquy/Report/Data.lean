import Colloquy.Json.Basic
import Colloquy.Report.Basic

/-! # Reports for programs

The diagnostics as one JSON document, with counts.
-/

namespace Colloquy.Report

/-- How a report is written. -/
structure DataOptions where
  mode : PathMode
  cwd : Bytes
  base : Bytes
  /-- How many diagnostics are written at most; no limit unless positive. -/
  limit : Int
  notes : Bool
  fixes : Bool
  deriving Repr

/-- A field that is left out when its value is empty. -/
def optionalField (name : String) (isEmpty : Bool) (value : Json) : List (String × Json) :=
  if isEmpty then [] else [(name, value)]

def location (path : Bytes) (lines : LineIndex) (s : Span) : Json :=
  let start := lineColumn lines s.start.toNat
  let stop := lineColumn lines s.stop.toNat
  Json.obj [("file", Json.ofText path), ("start_byte", Json.ofNat s.start.toNat),
    ("end_byte", Json.ofNat s.stop.toNat), ("start_line", Json.ofNat start.1), ("start_col", Json.ofNat start.2),
    ("end_line", Json.ofNat stop.1), ("end_col", Json.ofNat stop.2)]

/-- The text of a span, or nothing if the span does not lie in the text. -/
def textOf (text : Bytes) (s : Span) : Bytes :=
  if s.stop < s.start || text.length < s.stop.toNat then []
  else Bytes.slice text s.start.toNat s.stop.toNat

def fixData (path : Bytes) (lines : LineIndex) (f : Fix) : Json :=
  Json.obj ([("title", Json.ofText f.title)] ++
    optionalField "is_preferred" (!f.isPreferred) (.bool true) ++
    optionalField "edits" f.edits.isEmpty (.array (f.edits.map fun e =>
      let old := textOf lines.text e.span
      Json.obj ([("location", location path lines e.span), ("new_text", Json.ofText e.text)] ++
        optionalField "old_text" old.isEmpty (Json.ofText old)))))

def diagnosticData (o : DataOptions) (path : Bytes) (lines : LineIndex) (d : Diagnostic) : Json :=
  Json.obj ([("severity", Json.ofText d.severity.label), ("code", Json.ofText d.code.id),
      ("title", Json.ofText d.code.title), ("message", Json.ofText d.message),
      ("location", location path lines d.span)] ++
    optionalField "notes" (!o.notes || d.notes.isEmpty) (.array (d.notes.map fun n =>
      Json.obj [("message", Json.ofText n.message), ("location", location path lines n.span)])) ++
    optionalField "fixes" (!o.fixes || d.fixes.isEmpty) (.array (d.fixes.map (fixData path lines))))

/-- All diagnostics with the reports they belong to, up to the limit. -/
def limited (o : DataOptions) (reports : List Report) : List (Report × Diagnostic) :=
  let all := reports.flatMap fun r => r.diagnostics.map fun d => (r, d)
  if 0 < o.limit then all.take o.limit.toNat else all

def data (o : DataOptions) (reports : List Report) : Json :=
  let shown := limited o reports
  let count (s : Severity) : Nat := (shown.filter fun x => x.2.severity == s).length
  Json.obj [("diagnostics", .array (shown.map fun x =>
      diagnosticData o (o.mode.render o.cwd o.base x.1.path) (LineIndex.ofText x.1.text) x.2)),
    ("count", Json.ofNat shown.length), ("errors", Json.ofNat (count .error)),
    ("warnings", Json.ofNat (count .warning))]

def json (o : DataOptions) (reports : List Report) : Bytes := (data o reports).document

end Colloquy.Report
