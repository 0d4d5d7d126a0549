import Colloquy.Outline.Builtin
import Colloquy.Server.View

/-! # Definitions

Where the entity is declared that a place in a document names.
-/

namespace Colloquy

/-- A name and the kind of entity that it names. -/
structure Reference where
  kind : EntityKind
  name : Bytes
  deriving Repr, DecidableEq

namespace DocumentView

def directiveReference? (v : DocumentView) (d : Directive) : Option Reference :=
  let inner := Bytes.trim (d.inner.of v.text)
  if Builtin.isSpeaker d.key then some ⟨.interlocutor, inner⟩
  else if d.key == Builtin.macroKey then some ⟨.expansion, inner⟩
  else if !d.key.isEmpty && !Builtin.isBuiltin d.key then some ⟨.expansion, d.key⟩
  else none

def toolReference? (offset : Nat) (t : Tool) : Option Reference :=
  if t.target.isEmpty || !t.targetSpan.touches offset then none
  else if t.kind == utf8 "agent" then some ⟨.interlocutor, t.target⟩
  else if t.kind == utf8 "kit" then some ⟨.kit, t.target⟩
  else none

def headerReference? (v : DocumentView) (offset : Nat) : Option Reference :=
  let header := v.headerLayer
  (header.interlocutors.flatMap Interlocutor.tools ++ header.kits.flatMap Kit.tools).findSome?
    (toolReference? offset)

/-- Who speaks on the first line of an assistant's turn. -/
def turnReference? (v : DocumentView) (offset : Nat) : Option Reference := do
  let turn ← v.outline.turnAt? offset
  if turn.speaker == .assistant && (Span.restOfLine v.text turn.extent.start).touches offset then
    some ⟨.interlocutor, turn.name⟩
  else none

def reference? (v : DocumentView) (offset : Nat) : Option Reference :=
  match (v.outline.directiveAt? offset).bind v.directiveReference? with
  | some r => some r
  | none => (v.headerReference? offset).or (v.turnReference? offset)

def definition? (v : DocumentView) (p : Position) : Option Wire.Location := do
  let r ← v.reference? (v.offset p)
  if r.name.isEmpty then none
  let declaration ← v.resolution.find? r.kind r.name
  v.locate? declaration

end DocumentView

end Colloquy
