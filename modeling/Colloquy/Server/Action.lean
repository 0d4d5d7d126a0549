import Colloquy.Expansion
import Colloquy.Preview.Target
import Colloquy.Server.View
import Colloquy.Suggestion

/-! # Actions

What an editor may offer to do at a place: insert a header, change a link, correct a name or expand a
macro. The edit of an expansion is computed only when the action is chosen.
-/

namespace Colloquy

namespace DocumentView

def quickFix : Bytes := utf8 "quickfix"

def inlining : Bytes := utf8 "refactor.inline"

def correction (title : Bytes) (isPreferred : Bool) (edit : Wire.WorkspaceEdit) : Wire.Action :=
  { title, kind := quickFix, isPreferred, edit := some edit }

/-- Insert a header where there is none or it is blank. -/
def headerActions (v : DocumentView) (keys : Environment) : List Wire.Action :=
  let d := v.snapshot.document
  if !Bytes.isBlank d.headerText then []
  else
    [correction (utf8 "Insert minimal lectic header") true
      (v.edit ⟨0, d.body⟩ (Discovery.minimalHeader (Discovery.defaultProvider? keys)))]

/-- Change a relative link into an absolute one. The action carries the editor's findings on the link. -/
def linkAction? (v : DocumentView) (findings : List Wire.Finding) (l : Link) : Option Wire.Action := do
  let url := l.url.of v.text
  let fixed ← Target.absolute? url
  let title := if Target.isRelativeFile url then "Use $PWD-relative file URL" else "Convert to file://$PWD URL"
  let range := v.range l.url
  return { correction (utf8 title) true (v.edit l.url fixed) with
    findings := findings.filter fun f => f.code == Code.relativeFileUrl.id && f.range == range }

/-- Replace a name that is not known by known names that are close to it, nearest first. -/
def nameActions (v : DocumentView) (d : Directive) : List Wire.Action :=
  if v.outline.insideAssistant d.extent.start then []
  else
    let typed := Bytes.trim (d.inner.of v.text)
    let spec := v.resolution.spec
    if typed.isEmpty || (spec.interlocutor? typed).isSome then []
    else
      let near := Suggestion.near spec.names typed (Suggestion.threshold typed)
      near.mapIdx fun i m => correction (utf8 "Replace with " ++ m.1) (i == 0) (v.edit d.inner m.1)

def directiveActions (v : DocumentView) (d : Directive) : List Wire.Action :=
  if Builtin.isSpeaker d.key then v.nameActions d
  else if d.key.isEmpty || (Builtin.isBuiltin d.key && d.key != Builtin.macroKey) then []
  else
    [{ title := utf8 "Expand macro"
       kind := inlining
       target := some ⟨v.uri, v.snapshot.version.toInt, d.extent.start, d.extent.stop⟩ }]

/-- Whether a kind is among the kinds asked for or below one of them. -/
def isAskedFor (only : List Bytes) (kind : Bytes) : Bool :=
  only.any fun k => kind == k || Bytes.startsWith kind (k ++ utf8 ".")

/-- What can be done at the start of a range. Nothing is different from nothing of the kinds asked
    for. -/
def actions? (v : DocumentView) (keys : Environment) (context : Params.ActionContext) :
    Option (List Wire.Action) :=
  let offset := v.offset context.range.start
  let all := v.headerActions keys ++
    ((v.outline.linkAt? offset).bind (v.linkAction? context.findings.items)).toList ++
    ((v.outline.directiveAt? offset).map v.directiveActions).getD []
  if all.isEmpty then none
  else if context.only.items.isEmpty then some all
  else some (all.filter fun a => isAskedFor context.only.items a.kind)

/-- The edit that expands the directive that lies exactly between two offsets. -/
def expansion? (v : DocumentView) (start stop : Int) : Option (Except ExpansionFault Wire.WorkspaceEdit) :=
  (v.outline.directives.find? fun d => (d.extent.start : Int) == start && (d.extent.stop : Int) == stop).map
    fun d =>
      ((Expansions.of v.resolution.spec.macros).expandDirective d.key (d.inner.of v.text)).map (v.edit d.extent)

end DocumentView

namespace Server

/-- Fill in the edit of an action. One for another version of the document, or one that cannot be
    expanded, stays as it is. -/
def resolveAction (s : Server) (host : Host) (a : Wire.Action)
    (expand : DocumentView → Int → Int → Except Bytes (Option (Except ExpansionFault Wire.WorkspaceEdit))) :
    Except Bytes Wire.Action × Server :=
  match a.target, a.edit with
  | some target, none =>
    match s.view? host target.uri with
    | none => (.ok a, s)
    | some (v, s) =>
      if v.snapshot.version.toInt != target.version then (.ok a, s)
      else match expand v target.start target.stop with
        | .ok (some (.ok edit)) => (.ok { a with edit := some edit }, s)
        | .ok (some (.error f)) => (.ok a, s.logLine (utf8 "expand macro: " ++ f.message))
        | .ok none => (.ok a, s)
        | .error reason => (.error reason, s)
  | _, _ => (.ok a, s)

end Server

end Colloquy
