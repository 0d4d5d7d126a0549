import Colloquy.Json.Parse
import Colloquy.Preview.Element
import Colloquy.Preview.Fence
import Colloquy.Text.Case
import Colloquy.Text.Space

/-! # Previews of embedded blocks

A tool call or an inline attachment stands in a document as raw text in tags. Its preview names the
block, shows the command and then each payload by its type: JSON indented, text as it is.
-/

namespace Colloquy

/-- One payload of a block. -/
structure Payload where
  heading : Bytes
  type : Bytes
  body : Bytes
  deriving Repr, DecidableEq

namespace Payload

def continuation : Bytes := utf8 "┆"

/-- The payload's own text: no carriage returns before line feeds, no continuation marks, and no empty
    lines around it. -/
def unwrap (t : Bytes) : Bytes :=
  let lines := Bytes.splitOn (Bytes.replaceAll t [Bytes.cr, Bytes.lf] [Bytes.lf]) Bytes.lf
  let joined := Bytes.join [Bytes.lf] (lines.map fun l => Bytes.dropHead l continuation)
  Bytes.trimEndWhile (joined.dropWhile (· == Bytes.lf)) (· == Bytes.lf)

def isJson (type : Bytes) : Bool :=
  let t := Bytes.lower type
  t == utf8 "json" || Bytes.endsWith t (utf8 "/json") || Bytes.endsWith t (utf8 "+json")

/-- Whether a type means text; no type does. -/
def isText (type : Bytes) : Bool :=
  let t := Bytes.lower (Bytes.trim type)
  t.isEmpty || t == utf8 "text" || Bytes.startsWith t (utf8 "text/")

def shown (p : Payload) : Bytes :=
  if isJson p.type then
    match Json.parse? (Bytes.trim p.body) with
    | some j => Fence.wrap (j.indent 0) (utf8 "json")
    | none => Fence.wrap p.body (utf8 "json")
  else if isText p.type then
    if p.body.isEmpty then utf8 "(empty)" else Fence.wrap p.body []
  else utf8 "(not previewable)"

/-- Heading, type and body. -/
def render (p : Payload) : Bytes :=
  utf8 "\n\n**" ++ p.heading ++ utf8 "**" ++
    (if p.type.isEmpty then [] else utf8 " (" ++ p.type ++ utf8 ")") ++ utf8 "\n\n" ++ p.shown

end Payload

/-- The two kinds of embedded blocks. -/
inductive EmbeddedKind
  | toolCall
  | attachment
  deriving Repr, DecidableEq

def EmbeddedKind.tag : EmbeddedKind → String
  | .toolCall => "tool-call"
  | .attachment => "inline-attachment"

/-- An embedded block, read from its raw text. -/
structure Embedded where
  kind : EmbeddedKind
  marks : Marks
  command : Bytes
  payloads : List Payload
  deriving Repr, DecidableEq

namespace Embedded

def payloadsOf (name : String) (heading : Element → Bytes) (t : Bytes) : List Payload :=
  (Element.all name t).map fun e => ⟨heading e, e.marks.get "type", Payload.unwrap e.body⟩

def ofKind? (kind : EmbeddedKind) (t : Bytes) : Option Embedded := do
  let (marks, _) ← Element.openingTag? kind.tag t
  let command := (Element.all "command" t).head?.map fun e => Payload.unwrap e.body
  return {
    kind
    marks := Marks.ofText marks
    command := command.getD []
    payloads :=
      payloadsOf "argument" (fun e => utf8 "Argument " ++ Fence.inline (e.marks.get "name")) t ++
      payloadsOf "result" (fun _ => utf8 "Result") t ++
      payloadsOf "content" (fun _ => utf8 "Content") t }

/-- The block that starts a text, after white space. -/
def ofText? (raw : Bytes) : Option Embedded :=
  let t := raw.dropWhile Bytes.isSpaceByte
  (ofKind? .toolCall t).or (ofKind? .attachment t)

def title (b : Embedded) : Bytes :=
  match b.kind with
  | .toolCall => utf8 "### Tool call " ++ Fence.inline (b.marks.get "with")
  | .attachment =>
    let kind := b.marks.get "kind"
    utf8 "### Inline attachment" ++ (if kind.isEmpty then [] else utf8 " (" ++ kind ++ utf8 ")")

def render (b : Embedded) : Bytes :=
  b.title ++
    (if b.command.isEmpty then [] else utf8 "\n\n**Command**\n\n" ++ Fence.wrap b.command (utf8 "bash")) ++
    b.payloads.flatMap Payload.render

/-- The preview of the block that starts a text; nothing if none does. -/
def preview (raw : Bytes) : Bytes := ((ofText? raw).map render).getD []

end Embedded

end Colloquy
