import Colloquy.Expansion
import Colloquy.Preview.Block
import Colloquy.Server.View

/-! # Hovers

What an editor shows when the pointer rests on a place: what a directive does, what a macro expands to,
where a link leads, or what an embedded block holds.
-/

namespace Colloquy.DocumentView

def shownExpansion : Int := 600

def directiveHover? (v : DocumentView) (d : Directive) : Option Wire.Hover :=
  let range := v.range d.extent
  let inner := Bytes.trim (d.inner.of v.text)
  let x := Expansions.of v.resolution.spec.macros
  match x.invoked? d.key inner with
  | some m =>
    some ⟨utf8 "**Macro** " ++ Fence.inline m.name ++ utf8 "\n\n" ++ (x.preview? m.name shownExpansion).getD [], range⟩
  | none => (Builtin.doc? d.key).map fun doc => ⟨doc, range⟩

def linkHover? (v : DocumentView) (limits : PreviewLimits) (l : Link) : Option Wire.Hover :=
  let shown := (Preview.ofTarget v.host limits v.dir (l.url.of v.text)).text
  if shown.isEmpty then none else some ⟨shown, v.range l.url⟩

def blockHover (v : DocumentView) (e : Extent) : Wire.Hover := ⟨Embedded.preview (e.of v.text), v.range e⟩

/-- The hover of what is not a directive. -/
def plainHover? (v : DocumentView) (limits : PreviewLimits) (offset : Nat) : Option Wire.Hover :=
  match v.outline.linkAt? offset with
  | some l => v.linkHover? limits l
  | none => ((v.outline.toolCallAt? offset).or (v.outline.attachmentAt? offset)).map v.blockHover

def hover? (v : DocumentView) (limits : PreviewLimits) (p : Position) : Option Wire.Hover :=
  let offset := v.offset p
  match (v.outline.directiveAt? offset).bind v.directiveHover? with
  | some h => some h
  | none => v.plainHover? limits offset

end Colloquy.DocumentView
