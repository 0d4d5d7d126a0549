import Colloquy.Config.Entity
import Colloquy.Text.LineIndex
import Colloquy.Text.Space
import Colloquy.Yaml.Parse

/-! # Configuration layers

One source of configuration, read from YAML. Spans are offsets into the file that holds the source:
`base` is where the YAML text starts in it, which is zero except for the header of a document. A node's
line and column are only trusted as far as the text goes: every span lies inside the text.

A source that cannot be read declares nothing and keeps its fault.
-/

namespace Colloquy

/-- Why a source could not be read. -/
inductive LayerFault
  /-- The text is not YAML. -/
  | yaml (fault : Yaml.Fault)
  /-- The text is YAML of another shape. -/
  | notMapping
  deriving Repr, DecidableEq

def LayerFault.message : LayerFault → Bytes
  | .yaml fault => fault.message
  | .notMapping => utf8 "configuration must be a YAML mapping"

/-- What one source declares. -/
structure Layer where
  source : Source
  interlocutors : List Interlocutor
  macros : List Macro
  kits : List Kit
  hooks : Option Hooks
  /-- The span of the key that holds the interlocutors, if there is one. -/
  interlocutorSpan : Option Span
  /-- Why the source could not be read, and where. -/
  fault : Option (LayerFault × Span)
  deriving Repr, DecidableEq

namespace Layer

/-- A layer that declares nothing. -/
def blank (source : Source) : Layer := ⟨source, [], [], [], none, none, none⟩

/-- Whether the layer declares nothing. -/
def isEmpty (l : Layer) : Bool :=
  l.interlocutors.isEmpty && l.macros.isEmpty && l.kits.isEmpty && l.hooks.isNone

def isSound (l : Layer) : Bool := l.fault.isNone

/-- The text of a source, in which nodes are located. -/
structure Ground where
  source : Source
  lines : LineIndex
  base : Int

namespace Ground

def text (g : Ground) : Bytes := g.lines.text

/-- The offset of a place in the text: its line's start, and from there one rune for each column, but
    not past the line. -/
def offset (g : Ground) (p : Yaml.Place) : Nat :=
  if p.line = 0 then 0
  else
    let start := g.lines.lineStart (p.line - 1 : Nat)
    start + Bytes.widthOf ((Bytes.runes (Position.lineOf (g.text.drop start))).take (p.column - 1))

def lineSpan (g : Ground) (offset : Nat) : Span := (Span.restOfLine g.text offset).shift g.base

def nodeSpan (g : Ground) (n : Yaml.Node) : Span := g.lineSpan (g.offset n.place)

/-- The span of a scalar as it is written, with its quotes; at most to the end of the line. -/
def valueSpan (g : Ground) (n : Yaml.Node) : Span :=
  match n with
  | .scalar place value style _ =>
    let start := g.offset place
    let quotes := if style == .singleQuoted || style == .doubleQuoted then 2 else 0
    let stop := min (start + value.length + quotes) (Span.restOfLine g.text start).stop.toNat
    Span.of (Span.wrap64 (start + g.base)) (Span.wrap64 (stop + g.base))
  | _ => g.nodeSpan n

/-- The span of the line that a fault's message names, or of the first line. -/
def faultSpan (g : Ground) (f : Yaml.Fault) : Span := g.lineSpan (g.lines.lineStart ((f.line - 1 : Nat) : Int))

/-- The tools of a sequence node. An entry with several keys is an agent or a kit if one of them says
    so, else what its first key says. -/
def tools (g : Ground) : Yaml.Node → List Tool
  | .sequence _ items => items.filterMap fun item =>
    match item with
    | .mapping _ (first :: rest) =>
      let entries := first :: rest
      let entry :=
        (entries.find? fun e => e.1.label == utf8 "agent" || e.1.label == utf8 "kit").getD first
      some ⟨entry.1.label, Bytes.trim entry.2.text, g.nodeSpan entry.1, g.valueSpan entry.2⟩
    | .scalar _ value .. => some ⟨value, [], g.nodeSpan item, ⟨0, 0⟩⟩
    | _ => none
  | _ => []

def events (g : Ground) (n : Yaml.Node) : List HookEvent :=
  match n with
  | .scalar _ value .. => [⟨Bytes.trim value, g.valueSpan n⟩]
  | .sequence _ items => items.map fun item => ⟨Bytes.trim item.text, g.valueSpan item⟩
  | _ => [⟨[], g.nodeSpan n⟩]

def hook (g : Ground) (n : Yaml.Node) : Hook :=
  let start : Hook := ⟨g.nodeSpan n, [], false⟩
  match n with
  | .mapping _ entries => entries.foldl (fun h e =>
      if e.1.label == utf8 "do" then { h with hasAction := true }
      else if e.1.label == utf8 "on" then { h with events := h.events ++ g.events e.2 }
      else h) start
  | _ => start

def hooks (g : Ground) (n : Yaml.Node) : Hooks :=
  match n with
  | .sequence _ items => ⟨true, g.nodeSpan n, items.map g.hook⟩
  | _ => ⟨false, g.nodeSpan n, []⟩

/-- Whether a node is a prompt: anything but a null or blank scalar. -/
def isPrompt : Yaml.Node → Bool
  | .scalar _ value _ isNull => !isNull && !Bytes.isBlank value
  | _ => true

def setField (g : Ground) (it : Interlocutor) (e : Yaml.Node × Yaml.Node) : Interlocutor :=
  let (key, value) := e
  if key.label == utf8 "name" then
    { it with name := Bytes.trim value.text, nameSpan := g.nodeSpan key }
  else if key.label == utf8 "prompt" then
    { it with
      declared := { it.declared with prompt := true }
      prompt := value.text
      hasPrompt := isPrompt value
      promptSource := if isPrompt value then g.source else it.promptSource }
  else if key.label == utf8 "provider" then
    { it with declared := { it.declared with provider := true }, provider := Bytes.trim value.text }
  else if key.label == utf8 "model" then
    { it with
      declared := { it.declared with model := true }
      model := Bytes.trim value.text
      modelSpan := g.nodeSpan key }
  else if key.label == utf8 "tools" then
    { it with declared := { it.declared with tools := true }, tools := g.tools value }
  else if key.label == utf8 "hooks" then
    { it with declared := { it.declared with hooks := true }, hooks := some (g.hooks value) }
  else it

/-- An interlocutor, from the entries of the mapping `n`. -/
def interlocutor (g : Ground) (n : Yaml.Node) (entries : List (Yaml.Node × Yaml.Node)) : Interlocutor :=
  entries.foldl g.setField
    { name := [], prompt := [], hasPrompt := false, provider := [], model := [], tools := [], hooks := none
      source := g.source, promptSource := Source.unset, nameSpan := g.nodeSpan n, modelSpan := ⟨0, 0⟩
      declared := ⟨false, false, false, false, false⟩ }

/-- The interlocutor that a node declares, if it is a mapping. -/
def interlocutor? (g : Ground) (n : Yaml.Node) : Option Interlocutor :=
  match n with
  | .mapping _ entries => some (g.interlocutor n entries)
  | _ => none

/-- The expansion that a node declares, if it is a mapping with a name. -/
def expansion? (g : Ground) (n : Yaml.Node) : Option Macro :=
  match n with
  | .mapping _ entries =>
    let m := entries.foldl (fun (m : Macro) e =>
      if e.1.label == utf8 "name" then
        { m with name := Bytes.trim e.2.text, nameSpan := g.nodeSpan e.1 }
      else if e.1.label == utf8 "expansion" then { m with expansion := e.2.text }
      else m) ⟨[], [], g.source, g.nodeSpan n⟩
    if m.name.isEmpty then none else some m
  | _ => none

/-- The kit that a node declares, if it is a mapping with a name. -/
def kit? (g : Ground) (n : Yaml.Node) : Option Kit :=
  match n with
  | .mapping _ entries =>
    let k := entries.foldl (fun (k : Kit) e =>
      if e.1.label == utf8 "name" then
        { k with name := Bytes.trim e.2.text, nameSpan := g.nodeSpan e.1 }
      else if e.1.label == utf8 "tools" then { k with tools := g.tools e.2 }
      else k) ⟨[], [], g.source, g.nodeSpan n⟩
    if k.name.isEmpty then none else some k
  | _ => none

def itemsOf : Yaml.Node → List Yaml.Node
  | .sequence _ items => items
  | _ => []

def addEntry (g : Ground) (l : Layer) (e : Yaml.Node × Yaml.Node) : Layer :=
  let (key, value) := e
  if key.label == utf8 "interlocutor" then
    { l with
      interlocutorSpan := some (g.nodeSpan key)
      interlocutors := l.interlocutors ++ (g.interlocutor? value).toList }
  else if key.label == utf8 "interlocutors" then
    { l with
      interlocutorSpan := some (g.nodeSpan key)
      interlocutors := l.interlocutors ++ (itemsOf value).filterMap g.interlocutor? }
  else if key.label == utf8 "macros" then
    { l with macros := l.macros ++ (itemsOf value).filterMap g.expansion? }
  else if key.label == utf8 "kits" then { l with kits := l.kits ++ (itemsOf value).filterMap g.kit? }
  else if key.label == utf8 "hooks" then { l with hooks := some (g.hooks value) }
  else l

end Ground

/-- The layer that a node tree declares. Without a root the text holds no document at all. -/
def ofRoot (source : Source) (text : Bytes) (base : Int) (root : Option Yaml.Node) : Layer :=
  let g : Ground := ⟨source, LineIndex.ofText text, base⟩
  match root with
  | some (.mapping _ entries) => entries.foldl g.addEntry (blank source)
  | some n => { blank source with fault := some (.notMapping, g.nodeSpan n) }
  | none => { blank source with fault := some (.notMapping, g.lineSpan 0) }

/-- The layer of a text that is not YAML. -/
def ofFault (source : Source) (text : Bytes) (base : Int) (f : Yaml.Fault) : Layer :=
  let g : Ground := ⟨source, LineIndex.ofText text, base⟩
  { blank source with fault := some (.yaml f, g.faultSpan f) }

/-- The layer that a YAML text declares. A blank text declares nothing. -/
def ofText (source : Source) (text : Bytes) (base : Int) : Layer :=
  if Bytes.isBlank text then blank source
  else match Yaml.parse text with
    | .ok root => ofRoot source text base root
    | .error f => ofFault source text base f

end Layer

end Colloquy
