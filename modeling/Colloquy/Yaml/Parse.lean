import Colloquy.Yaml.Lexer

/-! # The node tree of a YAML text

The first document of a text as a node tree. An empty node stands wherever the grammar allows a node
to be left out: it is a null scalar at the place where it would be. What follows the first document is
read only as far as its end has to be found.
-/

namespace Colloquy.Yaml

/-! ## YAML nodes

The tree that a YAML text spells. Each node knows the line and column at which it starts, both counted
from one; a tree built by other means may hold any numbers there.
-/

/-- Where a node starts: line and column, both counted from one. -/
structure Place where
  line : Nat
  column : Nat
  deriving Repr, DecidableEq, BEq, Inhabited

/-- A node. -/
inductive Node
  /-- A scalar; `isNull` when its tag, written or resolved, is that of null. -/
  | scalar (place : Place) (value : Bytes) (style : Style) (isNull : Bool)
  | sequence (place : Place) (items : List Node)
  | mapping (place : Place) (entries : List (Node × Node))
  /-- A reference to the node that was given this name. -/
  | alias (place : Place) (name : Bytes)
  deriving Repr, Inhabited

namespace Node

def place : Node → Place
  | .scalar place .. => place
  | .sequence place _ => place
  | .mapping place _ => place
  | .alias place _ => place

/-- The text by which a node names something: a scalar's value or an alias's name. -/
def label : Node → Bytes
  | .scalar _ value .. => value
  | .alias _ name => name
  | _ => []

/-- The value of a scalar; other nodes have none. -/
def text : Node → Bytes
  | .scalar _ value .. => value
  | _ => []

end Node

/-! ## Parsing -/

/-- What the nodes read so far have defined. -/
structure Definitions where
  /-- The tag handles and the texts they stand for. -/
  handles : List (Bytes × Bytes)
  /-- The names given to nodes. -/
  anchors : List Bytes
  deriving Repr

abbrev Parse := StateT Definitions Lex

namespace Parse

def peek : Parse Token := liftM Lex.peek

def advance : Parse Unit := liftM Lex.advance

/-- Take the next token and look at the one behind it. -/
def afterToken : Parse Token := do
  advance
  peek

def fail {α : Type} (p : Problem) (context at_ : Mark) : Parse α :=
  throw (Fault.ofNode p context at_)

def placeOf (m : Mark) : Place := ⟨m.line + 1, m.column + 1⟩

/-- The node that stands where nothing is written. -/
def absent (m : Mark) : Node := .scalar (placeOf m) [] .plain true

def standardTag : Bytes := utf8 "tag:yaml.org,2002:"

/-- The handles that need no directive. -/
def standardHandles : List (Bytes × Bytes) := [(utf8 "!", utf8 "!"), (utf8 "!!", standardTag)]

def nullTexts : List Bytes := [[], utf8 "~", utf8 "null", utf8 "Null", utf8 "NULL"]

/-- Whether a scalar is null: by its tag, or when it has none, by being plain and spelling null. -/
def isNull (tag value : Bytes) (style : Style) : Bool :=
  if tag.isEmpty || tag == utf8 "!" then style == .plain && nullTexts.any (· == value)
  else tag == standardTag ++ utf8 "null" || tag == utf8 "!!null"

/-- The properties written before a node. -/
structure Properties where
  start : Mark
  tag : Bytes
  anchor : Bytes

def resolveTag (start at_ : Mark) (handle suffix : Bytes) : Parse Bytes := do
  if handle.isEmpty then return suffix
  let full := match (← get).handles.find? fun h => h.1 == handle with
    | some h => h.2 ++ suffix
    | none => []
  if full.isEmpty then fail .unknownHandle start at_
  return full

/-- The tag and anchor before a node, in either order, and the token behind them. -/
def properties : Parse (Properties × Token) := do
  let t ← peek
  let start := t.start
  match t.kind with
  | .anchor name =>
    let t ← afterToken
    match t.kind with
    | .tag handle suffix =>
      let next ← afterToken
      return (⟨start, ← resolveTag start t.start handle suffix, name⟩, next)
    | _ => return (⟨start, [], name⟩, t)
  | .tag handle suffix =>
    let next ← afterToken
    match next.kind with
    | .anchor name =>
      let behind ← afterToken
      return (⟨start, ← resolveTag start t.start handle suffix, name⟩, behind)
    | _ => return (⟨start, ← resolveTag start t.start handle suffix, []⟩, next)
  | _ => return (⟨start, [], []⟩, t)

def define (name : Bytes) : Parse Unit := do
  unless name.isEmpty do
    modify fun d => { d with anchors := name :: d.anchors }

mutual

/-- A node. `block` allows block collections, `indentless` also a sequence at the indentation of the
    mapping that holds it. -/
def node : (fuel : Nat) → (block indentless : Bool) → Parse Node
  | 0, _, _ => throw (Fault.ofText .other)
  | fuel + 1, block, indentless => do
    let t ← peek
    match t.kind with
    | .alias name =>
      advance
      unless (← get).anchors.any (· == name) do throw (Fault.ofText (.unknownAnchor name))
      return .alias (placeOf t.start) name
    | _ =>
      let (props, t) ← properties
      let place := placeOf props.start
      let found := define props.anchor
      match t.kind with
      | .blockEntry =>
        if indentless then do
          found
          return .sequence place (← indentlessItems fuel)
        else empty fuel props block t
      | .scalar value style =>
        advance
        found
        return .scalar place value style (isNull props.tag value style)
      | .flowSequenceStart =>
        found
        advance
        return .sequence place (← flowItems fuel t.start true)
      | .flowMappingStart =>
        found
        advance
        return .mapping place (← flowEntries fuel t.start true)
      | .blockSequenceStart =>
        if block then do
          found
          advance
          return .sequence place (← blockItems fuel t.start)
        else empty fuel props block t
      | .blockMappingStart =>
        if block then do
          found
          advance
          return .mapping place (← blockEntries fuel t.start)
        else empty fuel props block t
      | _ => empty fuel props block t

/-- A node of which nothing but its properties is written. -/
def empty : (fuel : Nat) → Properties → (block : Bool) → Token → Parse Node
  | _, props, _, t => do
    if props.tag.isEmpty && props.anchor.isEmpty then fail .noNode props.start t.start
    define props.anchor
    return .scalar (placeOf props.start) [] .plain (isNull props.tag [] .plain)

/-- The items of a sequence without indentation of its own. -/
def indentlessItems : (fuel : Nat) → Parse (List Node)
  | 0 => throw (Fault.ofText .other)
  | fuel + 1 => do
    let t ← peek
    if t.kind == .blockEntry then
      let next ← afterToken
      let item ← match next.kind with
        | .blockEntry | .key | .value | .blockEnd => pure (absent t.stop)
        | _ => node fuel true false
      return item :: (← indentlessItems fuel)
    else return []

/-- The items of a block sequence that starts at `start`. -/
def blockItems : (fuel : Nat) → (start : Mark) → Parse (List Node)
  | 0, _ => throw (Fault.ofText .other)
  | fuel + 1, start => do
    let t ← peek
    match t.kind with
    | .blockEntry =>
      let next ← afterToken
      let item ← match next.kind with
        | .blockEntry | .blockEnd => pure (absent t.stop)
        | _ => node fuel true false
      return item :: (← blockItems fuel start)
    | .blockEnd =>
      advance
      return []
    | _ => fail .noDash start t.start

/-- The entries of a block mapping that starts at `start`. -/
def blockEntries : (fuel : Nat) → (start : Mark) → Parse (List (Node × Node))
  | 0, _ => throw (Fault.ofText .other)
  | fuel + 1, start => do
    let t ← peek
    match t.kind with
    | .key =>
      let next ← afterToken
      let key ← match next.kind with
        | .key | .value | .blockEnd => pure (absent t.stop)
        | _ => node fuel true true
      let value ← blockValue fuel
      return (key, value) :: (← blockEntries fuel start)
    | .blockEnd =>
      advance
      return []
    | _ => fail .noKey start t.start

def blockValue : (fuel : Nat) → Parse Node
  | 0 => throw (Fault.ofText .other)
  | fuel + 1 => do
    let t ← peek
    if t.kind == .value then
      let next ← afterToken
      match next.kind with
      | .key | .value | .blockEnd => return absent t.stop
      | _ => node fuel true true
    else return absent t.start

/-- The items of a bracketed sequence that starts at `start`. -/
def flowItems : (fuel : Nat) → (start : Mark) → (first : Bool) → Parse (List Node)
  | 0, _, _ => throw (Fault.ofText .other)
  | fuel + 1, start, first => do
    let t ← peek
    if t.kind == .flowSequenceEnd then
      advance
      return []
    let t ←
      if first then pure t
      else if t.kind == .flowEntry then afterToken
      else fail .noSequenceEnd start t.start
    match t.kind with
    | .flowSequenceEnd =>
      advance
      return []
    | .key =>
      advance
      let pair ← flowPair fuel
      return .mapping (placeOf t.start) [pair] :: (← flowItems fuel start false)
    | _ =>
      let item ← node fuel false false
      return item :: (← flowItems fuel start false)

/-- The single entry of a mapping written without brackets inside a sequence. -/
def flowPair : (fuel : Nat) → Parse (Node × Node)
  | 0 => throw (Fault.ofText .other)
  | fuel + 1 => do
    let t ← peek
    let key ← match t.kind with
      | .value | .flowEntry | .flowSequenceEnd =>
        advance
        pure (absent t.stop)
      | _ => node fuel false false
    let t ← peek
    let value ←
      if t.kind == .value then
        let next ← afterToken
        match next.kind with
        | .flowEntry | .flowSequenceEnd => pure (absent t.start)
        | _ => node fuel false false
      else pure (absent t.start)
    return (key, value)

/-- The entries of a bracketed mapping that starts at `start`. -/
def flowEntries : (fuel : Nat) → (start : Mark) → (first : Bool) → Parse (List (Node × Node))
  | 0, _, _ => throw (Fault.ofText .other)
  | fuel + 1, start, first => do
    let t ← peek
    if t.kind == .flowMappingEnd then
      advance
      return []
    let t ←
      if first then pure t
      else if t.kind == .flowEntry then afterToken
      else fail .noMappingEnd start t.start
    match t.kind with
    | .flowMappingEnd =>
      advance
      return []
    | .key =>
      let next ← afterToken
      let key ← match next.kind with
        | .value | .flowEntry | .flowMappingEnd => pure (absent next.start)
        | _ => node fuel false false
      let value ← flowValue fuel
      return (key, value) :: (← flowEntries fuel start false)
    | _ =>
      let key ← node fuel false false
      let t ← peek
      return (key, absent t.start) :: (← flowEntries fuel start false)

def flowValue : (fuel : Nat) → Parse Node
  | 0 => throw (Fault.ofText .other)
  | fuel + 1 => do
    let t ← peek
    if t.kind == .value then
      let next ← afterToken
      match next.kind with
      | .flowEntry | .flowMappingEnd => return absent next.start
      | _ => node fuel false false
    else return absent t.start

end

/-- The directives before a document; whether a version was given. -/
def directives : (fuel : Nat) → (versioned : Bool) → Parse Token
  | 0, _ => throw (Fault.ofText .other)
  | fuel + 1, versioned => do
    let t ← peek
    match t.kind with
    | .version major minor =>
      if versioned then fail .twoVersions ⟨0, 0, 0⟩ t.start
      if major != 1 || minor != 1 then fail .otherVersion ⟨0, 0, 0⟩ t.start
      advance
      directives fuel true
    | .handle name lead =>
      if (← get).handles.any fun h => h.1 == name then fail .twoHandles ⟨0, 0, 0⟩ t.start
      modify fun d => { d with handles := d.handles ++ [(name, lead)] }
      advance
      directives fuel versioned
    | _ =>
      modify fun d =>
        { d with handles := d.handles ++ standardHandles.filter fun h => !d.handles.any fun g => g.1 == h.1 }
      return t

/-- The first document; nothing when the text holds none. -/
def document (fuel : Nat) : Parse (Option Node) := do
  let _ ← peek
  advance
  let t ← peek
  match t.kind with
  | .streamEnd => return none
  | .version .. | .handle .. | .documentStart =>
    let t ← directives fuel false
    if t.kind != .documentStart then fail .noDocumentStart ⟨0, 0, 0⟩ t.start
    let next ← afterToken
    let root ← match next.kind with
      | .version .. | .handle .. | .documentStart | .documentEnd | .streamEnd => pure (absent next.start)
      | _ => node fuel true false
    let _ ← peek
    return some root
  | _ =>
    let _ ← directives fuel false
    let root ← node fuel true false
    let _ ← peek
    return some root

end Parse

/-- The root of the first document of a text; nothing when the text holds no document. -/
def parse (t : Bytes) : Except Fault (Option Node) :=
  match (Parse.document (8 * t.length + 64) ⟨[], []⟩) (Lexer.ofText t) with
  | .ok ((root, _), _) => .ok root
  | .error f => .error f

end Colloquy.Yaml
