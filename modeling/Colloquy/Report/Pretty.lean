import Colloquy.Report.Basic
import Colloquy.Report.Style

/-! # Reports for reading

Each diagnostic with its place, then the line of the document that it starts in and an underline, and
perhaps its notes and fixes.
-/

namespace Colloquy.Report

/-- How a report is drawn. -/
structure PrettyOptions where
  color : Bool
  terminal : Style.Terminal
  mode : PathMode
  cwd : Bytes
  base : Bytes
  notes : Bool
  fixes : Bool
  deriving Repr

namespace PrettyOptions

/-- A styled piece of text, if colour is on. -/
def style (o : PrettyOptions) (attributes : List Nat) (t : Bytes) : Bytes :=
  if o.color then Style.piece o.terminal attributes t else t

def gutter (o : PrettyOptions) (t : Bytes) : Bytes := o.style [94] t

def caret (o : PrettyOptions) (t : Bytes) : Bytes := o.style [1, 91] t

def mark (o : PrettyOptions) (t : Bytes) : Bytes := o.style [96] t

def place (o : PrettyOptions) (t : Bytes) : Bytes := o.style [1] t

def severity (o : PrettyOptions) (s : Severity) : Bytes :=
  if s == .error then Style.label o.color [31, 1] s.label
  else if s == .warning then Style.label o.color [33, 1] s.label
  else if s == .info then Style.label o.color [36] s.label
  else s.label

end PrettyOptions

def spreadTabs (t : Bytes) : Bytes := Bytes.replaceAll t [Bytes.tab] (utf8 "    ")

def placeText (at_ : Nat × Nat) : Bytes := Bytes.ofNat at_.1 ++ utf8 ":" ++ Bytes.ofNat at_.2

/-- What is shown of a document under a diagnostic: the number of the line, the line, the column of the
    underline and its length. -/
structure Snippet where
  number : Nat
  line : Bytes
  indent : Nat
  width : Nat
  deriving Repr, DecidableEq

/-- The snippet of a span: its first line, with the span's part of it underlined in terminal cells. -/
def snippet (lines : LineIndex) (span : Span) : Snippet :=
  let text := lines.text
  let start := min span.start.toNat text.length
  let line := lines.lineOf start
  let lineStart := lines.lineStart line
  let content := Bytes.trimEndWhile (Bytes.slice text lineStart (lines.lineEnd line))
    fun b => b == Bytes.cr || b == Bytes.lf
  let stop := min (max span.stop.toNat start) (lineStart + content.length)
  { number := line + 1
    line := spreadTabs content
    indent := Width.ofText (spreadTabs (Bytes.slice text lineStart start))
    width := max 1 (Width.ofText (Bytes.slice text start stop)) }

def Snippet.render (o : PrettyOptions) (s : Snippet) : Bytes :=
  let number := Bytes.ofNat s.number
  let bar := o.gutter (utf8 "|")
  utf8 " " ++ o.gutter number ++ utf8 " " ++ bar ++ utf8 " " ++ s.line ++ utf8 "\n " ++
    List.replicate number.length Bytes.space ++ utf8 " " ++ bar ++ utf8 " " ++
    List.replicate s.indent Bytes.space ++ o.caret (utf8 "^" ++ List.replicate (s.width - 1) 0x7E) ++ utf8 "\n"

def prettyOne (o : PrettyOptions) (path : Bytes) (lines : LineIndex) (d : Diagnostic) : Bytes :=
  let at_ := lineColumn lines d.span.start.toNat
  o.place (path ++ utf8 ":" ++ placeText at_) ++ utf8 ": " ++ o.severity d.severity ++ utf8 " " ++ d.code.id ++
    utf8 ": " ++ d.message ++ utf8 "\n" ++ (snippet lines d.span).render o ++
    (if o.notes then d.notes.flatMap fun n =>
        utf8 "  " ++ o.mark (utf8 "= note:") ++ utf8 " " ++ n.message ++ utf8 " (" ++
          placeText (lineColumn lines n.span.start.toNat) ++ utf8 ")\n"
      else []) ++
    (if o.fixes then d.fixes.flatMap fun f =>
        utf8 "  " ++ o.mark (utf8 "= fix:") ++ utf8 " " ++ f.title ++ utf8 "\n"
      else [])

def pretty (o : PrettyOptions) (reports : List Report) : Bytes :=
  reports.flatMap fun r =>
    let lines := LineIndex.ofText r.text
    let path := o.mode.render o.cwd o.base r.path
    r.diagnostics.flatMap (prettyOne o path lines)

end Colloquy.Report
