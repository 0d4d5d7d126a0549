import Colloquy.Text.Case
import Colloquy.Text.Span

/-! # Configured entities

What a configuration declares: interlocutors, the tools and hooks they use, named expansions and kits of
tools. Each entity keeps the source that declared it and the span of its name there.
-/

namespace Colloquy

/-- The kinds of configuration source, from lowest to highest precedence. -/
inductive SourceKind
  | system
  | workspace
  | header
  deriving Repr, DecidableEq, BEq, Inhabited

def SourceKind.label : SourceKind → Bytes
  | .system => utf8 "system"
  | .workspace => utf8 "workspace"
  | .header => utf8 "header"

/-- Where a piece of configuration comes from. The header of an unsaved document has no path. -/
structure Source where
  kind : SourceKind
  path : Bytes
  deriving Repr, DecidableEq, BEq, Inhabited

namespace Source

/-- The source of a field that nothing sets. -/
def unset : Source := ⟨.system, []⟩

/-- The kind, and the path in parentheses if there is one. -/
def render (s : Source) : Bytes :=
  if s.path.isEmpty then s.kind.label else s.kind.label ++ utf8 " (" ++ s.path ++ utf8 ")"

end Source

/-- One entry of a list of tools: the kind of tool, and for the kinds `agent` and `kit` the name of what
    it refers to. -/
structure Tool where
  kind : Bytes
  target : Bytes
  span : Span
  targetSpan : Span
  deriving Repr, DecidableEq, BEq

/-- An event that a hook runs on. -/
structure HookEvent where
  name : Bytes
  span : Span
  deriving Repr, DecidableEq, BEq

/-- One entry of a list of hooks. -/
structure Hook where
  span : Span
  events : List HookEvent
  hasAction : Bool
  deriving Repr, DecidableEq, BEq

/-- The shape of a field for hooks, which ought to be a sequence. -/
structure Hooks where
  isSequence : Bool
  span : Span
  items : List Hook
  deriving Repr, DecidableEq, BEq

/-- Which fields an interlocutor's own entry sets. -/
structure Declared where
  prompt : Bool
  provider : Bool
  model : Bool
  tools : Bool
  hooks : Bool
  deriving Repr, DecidableEq, BEq, Inhabited

/-- An interlocutor, as one source declares it or as merged from several. -/
structure Interlocutor where
  name : Bytes
  prompt : Bytes
  hasPrompt : Bool
  provider : Bytes
  model : Bytes
  tools : List Tool
  hooks : Option Hooks
  source : Source
  promptSource : Source
  nameSpan : Span
  modelSpan : Span
  declared : Declared
  deriving Repr, DecidableEq, BEq

/-- A named expansion. -/
structure Macro where
  name : Bytes
  expansion : Bytes
  source : Source
  nameSpan : Span
  deriving Repr, DecidableEq, BEq

/-- The name by which an expansion is found: case does not matter. -/
def Macro.key (m : Macro) : Bytes := Bytes.fold m.name

/-- A named bundle of tools. -/
structure Kit where
  name : Bytes
  tools : List Tool
  source : Source
  nameSpan : Span
  deriving Repr, DecidableEq, BEq

end Colloquy
