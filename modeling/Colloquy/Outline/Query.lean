import Colloquy.Outline.Basic
import Colloquy.Search

/-! # Outline queries

What lies at a given offset. Links, turns and blocks are found by bisection, because they neither
overlap nor nest; directives nest, so the search for the innermost one looks at each.
-/

namespace Colloquy.Outline

/-- Of two directives that both touch an offset, the shorter one; the earlier one on a tie. -/
def shorter (best : Option Directive) (d : Directive) : Option Directive :=
  match best with
  | none => some d
  | some b => if d.extent.length < b.extent.length then some d else some b

/-- The innermost directive that `offset` touches. -/
def directiveAt? (o : Outline) (offset : Int) : Option Directive :=
  ((o.directives.takeWhile fun d => (d.extent.start : Int) ≤ offset).filter fun d =>
    offset ≤ d.extent.stop).foldl shorter none

/-- The link that `offset` touches. -/
def linkAt? (o : Outline) (offset : Int) : Option Link :=
  (firstPassing? o.links.toArray fun l => offset ≤ (l.extent.stop : Int)).filter fun l =>
    (l.extent.start : Int) ≤ offset

/-- The turn that holds `offset`. Turns exclude their ends, but the last one owns the end of the
    document. -/
def turnAt? (o : Outline) (offset : Int) : Option Turn :=
  match (firstPassing? o.turns.toArray fun t => offset < (t.extent.stop : Int)).filter fun t =>
      (t.extent.start : Int) ≤ offset with
  | some t => some t
  | none => o.turns.getLast?.filter fun t => offset == (t.extent.stop : Int)

/-- Whether `offset` lies in an assistant's turn. -/
def insideAssistant (o : Outline) (offset : Int) : Bool :=
  match o.turnAt? offset with
  | some t => t.speaker == .assistant
  | none => false

/-- The stretch that holds `offset`, among stretches in order. -/
def extentAt? (es : List Extent) (offset : Int) : Option Extent :=
  (firstPassing? es.toArray fun e => offset < (e.stop : Int)).filter fun e => (e.start : Int) ≤ offset

/-- The tool call that holds `offset`. -/
def toolCallAt? (o : Outline) (offset : Int) : Option Extent := extentAt? o.toolCalls offset

/-- The attachment that holds `offset`. -/
def attachmentAt? (o : Outline) (offset : Int) : Option Extent := extentAt? o.attachments offset

/-- Drop each directive that starts before `reach`, the end of the last one kept. -/
def outermostFrom (reach : Int) : List Directive → List Directive
  | [] => []
  | d :: rest =>
    if (d.extent.start : Int) < reach then outermostFrom reach rest
    else d :: outermostFrom d.extent.stop rest

/-- The directives that lie in no earlier one. -/
def outermost (ds : List Directive) : List Directive := outermostFrom (-1) ds

end Colloquy.Outline
