import Colloquy.Config.Spec
import Colloquy.Outline.Builtin
import Colloquy.Outline.Query

/-! # Expansion

Named expansions and how text that invokes them is expanded. A directive invokes an expansion by its
key, with its contents as argument, or by name as the contents of the directive that exists for this.
Other directives stay, with their contents expanded. What an invocation expands to is expanded in turn,
up to a fixed depth, so that expansion ends even when expansions invoke each other in a circle.
-/

namespace Colloquy

/-- Why a text cannot be expanded. -/
inductive ExpansionFault
  /-- No expansion has this name. -/
  | unknown (name : Bytes)
  /-- Invocations are nested too deep; the name is that of the innermost. -/
  | tooDeep (name : Bytes)
  deriving Repr, DecidableEq

def ExpansionFault.message : ExpansionFault → Bytes
  | .unknown name => utf8 "unknown macro: " ++ name
  | .tooDeep name => utf8 "macro expansion too deep: " ++ name

/-- The expansions that can be invoked, at most one for each folded name. -/
structure Expansions where
  entries : List Macro
  deriving Repr, DecidableEq

namespace Expansions

def maxDepth : Nat := 8

def placeholder : Bytes := utf8 "\x7b\x7bARG\x7d\x7d"

/-- The named ones among `macros`. A later one replaces an earlier one of the same folded name. -/
def of (macros : List Macro) : Expansions :=
  ⟨Spec.combined Macro.key (fun m _ => m) (macros.filter fun m => !m.name.isEmpty)⟩

/-- The names, in the order of first declaration. -/
def names (x : Expansions) : List Bytes := x.entries.map Macro.name

/-- The expansion with this name, whatever its case and the white space around it. -/
def lookup? (x : Expansions) (name : Bytes) : Option Macro :=
  let key := Bytes.fold (Bytes.trim name)
  x.entries.find? fun m => m.key == key

def invoked? (x : Expansions) (key inner : Bytes) : Option Macro :=
  if key == Builtin.macroKey then x.lookup? inner
  else if Builtin.isBuiltin key then none
  else x.lookup? key

def argument (key inner : Bytes) : Bytes :=
  if key == Builtin.macroKey || Builtin.isBuiltin key then [] else inner

def body (m : Macro) (arg : Bytes) : Bytes := Bytes.replaceAll m.expansion placeholder arg

def back (e : Extent) : Extent := ⟨e.start - 1, e.stop - 1⟩

/-- The outermost directives of a text. A line feed put before it keeps a text that starts like a header
    from being read as one. -/
def directives (text : Bytes) : List Directive :=
  (Outline.outermost (Outline.ofText (Bytes.lf :: text)).directives).map fun d =>
    { d with extent := back d.extent, inner := back d.inner }

/-- The text from `last` on, with the stretches replaced. -/
def stitch (text : Bytes) (last : Nat) : List (Extent × Bytes) → Bytes
  | [] => text.drop last
  | (e, piece) :: rest => Bytes.slice text last e.start ++ piece ++ stitch text e.stop rest

/-- Expand a text; `room` is how deep invocations may still nest. -/
def expand (x : Expansions) (room : Nat) (text : Bytes) : Except ExpansionFault Bytes := do
  let pieces ← (directives text).mapM fun d => do
    let inner := d.inner.of text
    match x.invoked? d.key inner with
    | some m =>
      match _h : room with
      | 0 => .error (.tooDeep m.name)
      | room' + 1 => return (d.extent, ← expand x room' (body m (argument d.key inner)))
    | none =>
      if d.key == Builtin.macroKey then .error (.unknown (Bytes.trim inner))
      else if _h : inner.length < text.length then
        let expanded ← expand x room inner
        return (d.extent, Bytes.slice text d.extent.start d.inner.start ++ expanded ++
          Bytes.slice text d.inner.stop d.extent.stop)
      else return (d.extent, d.extent.of text)
  return stitch text 0 pieces
termination_by (room, text.length)

def expandText (x : Expansions) (text : Bytes) : Except ExpansionFault Bytes := x.expand maxDepth text

def expandDirective (x : Expansions) (key inner : Bytes) : Except ExpansionFault Bytes :=
  match x.invoked? key inner with
  | some m => x.expand (maxDepth - 1) (body m (argument key inner))
  | none => .error (.unknown (if key == Builtin.macroKey then Bytes.trim inner else key))

/-- The text of an expansion cut to `limit` characters, if that is positive, with its backticks
    escaped. -/
def previewOf (m : Macro) (limit : Int) : Bytes :=
  let codes := Bytes.codes m.expansion
  let isCut := 0 < limit && limit < codes.length
  let text := if isCut then Bytes.ofCodes (codes.take limit.toNat) else m.expansion
  text.flatMap (fun b => if b == 0x60 then [0x5C, 0x60] else [b]) ++ (if isCut then utf8 "…" else [])

def preview? (x : Expansions) (name : Bytes) (limit : Int) : Option Bytes :=
  (x.lookup? name).map fun m => previewOf m limit

end Expansions

end Colloquy
