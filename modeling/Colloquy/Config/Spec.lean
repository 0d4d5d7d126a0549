import Colloquy.Config.Layer

/-! # The effective configuration

Layers merged from lowest to highest precedence. A later interlocutor with the name of an earlier one
overrides it field by field; expansions and kits are replaced whole. Every entry keeps the place of its
first declaration, and a layer that is missing or could not be read counts for nothing.
-/

namespace Colloquy

/-- The effective configuration: names are unique. -/
structure Spec where
  interlocutors : List Interlocutor
  macros : List Macro
  kits : List Kit
  deriving Repr, DecidableEq

/-- The interlocutor `next` over `earlier`: what `next` does not set is inherited. A prompt that is
    declared empty is inherited too. -/
def Interlocutor.over (next earlier : Interlocutor) : Interlocutor :=
  let inheritsPrompt := (!next.declared.prompt || !next.hasPrompt) && earlier.hasPrompt
  { next with
    prompt := if inheritsPrompt then earlier.prompt else next.prompt
    hasPrompt := if inheritsPrompt then true else next.hasPrompt
    promptSource := if inheritsPrompt then earlier.promptSource else next.promptSource
    provider := if next.declared.provider then next.provider else earlier.provider
    model := if next.declared.model then next.model else earlier.model
    modelSpan := if next.declared.model then next.modelSpan else earlier.modelSpan
    tools := if next.declared.tools then next.tools else earlier.tools
    hooks := if next.declared.hooks then next.hooks else earlier.hooks }

namespace Spec

/-- Put `x` in the place of the entry with its key, combined with it, or else behind all entries. -/
def put {α : Type} (key : α → Bytes) (combine : α → α → α) (x : α) : List α → List α
  | [] => [x]
  | y :: ys => if key y == key x then combine x y :: ys else y :: put key combine x ys

/-- All entries in order, those with equal keys combined. -/
def combined {α : Type} (key : α → Bytes) (combine : α → α → α) (xs : List α) : List α :=
  xs.foldl (fun acc x => put key combine x acc) []

/-- Layers none of which is missing. -/
instance : Coe (List Layer) (List (Option Layer)) := ⟨List.map some⟩

/-- The layers that are there and could be read. -/
def sound (layers : List (Option Layer)) : List Layer := layers.filterMap (Option.filter Layer.isSound)

/-- The effective configuration of layers, lowest precedence first. -/
def merge (layers : List (Option Layer)) : Spec :=
  { interlocutors := combined Interlocutor.name Interlocutor.over
      (((sound layers).flatMap Layer.interlocutors).filter fun it => !it.name.isEmpty)
    macros := combined Macro.key (fun m _ => m) ((sound layers).flatMap Layer.macros)
    kits := combined Kit.name (fun k _ => k) ((sound layers).flatMap Layer.kits) }

def interlocutor? (s : Spec) (name : Bytes) : Option Interlocutor :=
  s.interlocutors.find? fun it => it.name == name

def names (s : Spec) : List Bytes := s.interlocutors.map Interlocutor.name

def kit? (s : Spec) (name : Bytes) : Option Kit := s.kits.find? fun k => k.name == name

/-- The expansion with this name, whatever its case. -/
def expansion? (s : Spec) (name : Bytes) : Option Macro :=
  s.macros.find? fun m => m.key == Bytes.fold name

end Spec

end Colloquy
