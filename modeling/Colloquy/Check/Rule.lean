import Colloquy.Config.Resolution
import Colloquy.Diagnostic.Bag
import Colloquy.Model.Registry
import Colloquy.Outline.Builtin
import Colloquy.Outline.Query
import Colloquy.Preview.Target
import Colloquy.Text.Quoted

/-! # Rules

What makes a document faulty. What is checked is a document with its outline, its header's layer and the
layers below it. Each rule gives its findings in document order or in the order of the header's entries.
-/

namespace Colloquy

/-- A document and its configuration. -/
structure Subject where
  document : Document
  outline : Outline
  /-- The layers of files, lowest precedence first. -/
  outer : List Layer
  header : Layer

namespace Subject

def text (s : Subject) : Bytes := s.document.text

def spec (s : Subject) : Spec := Spec.merge ((s.outer ++ [s.header]).map some)

def ofLayers (outer : List Layer) (docPath text : Bytes) : Subject :=
  let document := Document.ofText text
  { document := document
    outline := Outline.ofDocument document
    outer := outer
    header := Resolver.headerLayer docPath document.headerText document.headerStart }

def resolution (resolver : Resolver) (host : Host) (dir docPath text : Bytes) : Resolution :=
  let document := Document.ofText text
  resolver.resolve host dir docPath document.headerText document.headerStart

def resolve (resolver : Resolver) (host : Host) (dir docPath text : Bytes) : Subject :=
  ofLayers (resolver.chain host dir).layers docPath text

end Subject

namespace Rule

def hookEvents : List Bytes :=
  [utf8 "user_message", utf8 "assistant_message", utf8 "error", utf8 "tool_use_pre", utf8 "tool_use_post",
   utf8 "run_start", utf8 "run_end"]

/-- A document needs a header, and somebody to talk to. -/
def headerPresence (s : Subject) : List Diagnostic :=
  if s.document.header.isSome && !s.spec.interlocutors.isEmpty then []
  else [.error .headerMissing (Span.restOfLine s.text 0)
    (utf8 "YAML Header is missing or does not define an interlocutor")]

/-- The header must be readable. -/
def headerFault (s : Subject) : List Diagnostic :=
  match s.header.fault with
  | some (f, span) =>
    [.error .headerFault span (utf8 "Invalid YAML in header: " ++ Bytes.dropHead f.message (utf8 "yaml: "))]
  | none => []

/-- Add an entry to the group with its key, or start a group. -/
def addToGroup {α : Type} (key : α → Bytes) (x : α) : List (List α) → List (List α)
  | [] => [[x]]
  | group :: rest =>
    if (group.head?.map key) == some (key x) then (group ++ [x]) :: rest else group :: addToGroup key x rest

/-- The entries grouped by key, groups in the order of their first entries. -/
def groups {α : Type} (key : α → Bytes) (xs : List α) : List (List α) :=
  xs.foldl (fun acc x => addToGroup key x acc) []

def others {α : Type} (xs : List α) (i : Nat) : List α := xs.take i ++ xs.drop (i + 1)

/-- One finding for each entry of a group of two or more, with a note for each of the others. -/
def repeated {α : Type} (code : Code) (message : α → Bytes) (span : α → Span) (group : List α) :
    List Diagnostic :=
  if group.length < 2 then []
  else group.zipIdx.map fun (x, i) =>
    (others group i).foldl (fun d y => d.withNote (span y) (utf8 "also declared here"))
      (.error code (span x) (message x))

def duplicates (s : Subject) : List Diagnostic :=
  ((groups Interlocutor.name (s.header.interlocutors.filter fun it => !it.name.isEmpty)).flatMap
    (repeated .duplicateName (fun it => utf8 "Duplicate interlocutor name: " ++ it.name) Interlocutor.nameSpan)) ++
  ((groups Macro.key s.header.macros).flatMap
    (repeated .duplicateMacro (fun m => utf8 "Duplicate macro name: " ++ m.name) Macro.nameSpan))

/-- Each interlocutor of the header has a prompt, if only from an outer layer. -/
def prompts (s : Subject) : List Diagnostic :=
  let spec := s.spec
  s.header.interlocutors.filterMap fun it =>
    let hasPrompt := ((spec.interlocutor? it.name).map Interlocutor.hasPrompt).getD false
    if it.name.isEmpty || hasPrompt then none
    else some (.error .missingPrompt it.nameSpan
      (utf8 "Interlocutor " ++ it.name ++ utf8 " needs a prompt"))

/-- Speaker directives outside of assistants' turns name a known interlocutor. -/
def references (s : Subject) : List Diagnostic :=
  let spec := s.spec
  s.outline.directives.filterMap fun d =>
    if !Builtin.isSpeaker d.key || s.outline.insideAssistant d.extent.start then none
    else
      let name := Bytes.trim (d.inner.of s.text)
      if (spec.interlocutor? name).isSome then none
      else some (.error .unknownInterlocutor (Span.of d.inner.start d.inner.stop)
        (utf8 "Unknown interlocutor in :ask/:aside: " ++ name))

def toolTarget (spec : Spec) (t : Tool) : Option Diagnostic :=
  if t.kind == utf8 "agent" then
    if (spec.interlocutor? t.target).isSome then none
    else some (.error .unknownAgent t.span
      (utf8 "Agent tool references unknown interlocutor: " ++ t.target))
  else if t.kind == utf8 "kit" then
    if (spec.kit? t.target).isSome then none
    else some (.error .unknownKit t.span (utf8 "Unknown kit: " ++ t.target))
  else none

/-- The tools of the header's interlocutors and kits refer to something. -/
def toolTargets (s : Subject) : List Diagnostic :=
  let spec := s.spec
  (s.header.interlocutors.flatMap Interlocutor.tools ++ s.header.kits.flatMap Kit.tools).filterMap
    (toolTarget spec)

/-- A hook does something, on events that exist. -/
def hook (h : Hook) : List Diagnostic :=
  (if h.hasAction then []
    else [.error .hookWithoutAction h.span (utf8 "Hook is missing a 'do' field")]) ++
  h.events.filterMap fun e =>
    if hookEvents.any (· == e.name) then none
    else some (.error .unknownEvent e.span (utf8 "Unknown hook event " ++ Quoted.encode e.name ++
      utf8 "; expected one of: " ++ Bytes.join (utf8 ", ") hookEvents))

def hookList (h : Hooks) : List Diagnostic :=
  if h.isSequence then h.items.flatMap hook
  else [.error .hooksNotList h.span (utf8 "hooks must be a list")]

def hooks (s : Subject) : List Diagnostic :=
  (s.header.hooks.toList ++ s.header.interlocutors.filterMap Interlocutor.hooks).flatMap hookList

/-- File URLs are absolute or anchored at the document's directory. -/
def links (s : Subject) : List Diagnostic :=
  s.outline.links.filterMap fun l =>
    let url := l.url.of s.text
    if !Target.isRelativeFile url then none
    else
      let span := Span.of l.url.start l.url.stop
      let d := Diagnostic.warning .relativeFileUrl span
        (utf8 "Relative paths are not allowed in file:// URLs")
      some (match Target.absolute? url with
        | some fixed => d.withFix (utf8 "Use $PWD-relative file URL") [⟨span, fixed⟩]
        | none => d)

/-- All rules on a document's structure and references, in the order of their findings. -/
def structural (s : Subject) : List Diagnostic :=
  headerPresence s ++ headerFault s ++ duplicates s ++ prompts s ++ references s ++ toolTargets s ++
    hooks s ++ links s

/-- The provider of a header's interlocutor: the merged one, or else its own. -/
def providerOf (spec : Spec) (it : Interlocutor) : Bytes :=
  match (spec.interlocutor? it.name).map Interlocutor.provider with
  | some provider => if provider.isEmpty then it.provider else provider
  | none => it.provider

/-- The models that the header sets are among those that their providers serve, as far as these are
    known. -/
def models (registry : Registry) (s : Subject) : List Diagnostic :=
  let spec := s.spec
  s.header.interlocutors.filterMap fun it =>
    let provider := providerOf spec it
    if !it.declared.model || it.model.isEmpty || provider.isEmpty then none
    else match registry.has? provider it.model with
      | some false => some (.warning .unknownModel it.modelSpan
          (utf8 "Unknown model for " ++ provider ++ utf8 ": " ++ it.model))
      | _ => none

end Rule

end Colloquy
