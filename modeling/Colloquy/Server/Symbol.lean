import Colloquy.Server.View

/-! # Workspace symbols

The interlocutors and macros that configuration files declare: those of the user's file first, then
those of each folder of the workspace.
-/

namespace Colloquy.Symbols

def interlocutorKind : Nat := 5

def macroKind : Nat := 12

/-- A declared name. -/
structure Entry where
  name : Bytes
  kind : Nat
  declaration : Declaration

def ofLayer (l : Layer) : List Entry :=
  (l.interlocutors.map fun it => ⟨it.name, interlocutorKind, ⟨it.source, it.nameSpan⟩⟩) ++
    l.macros.map fun m => ⟨m.name, macroKind, ⟨m.source, m.nameSpan⟩⟩

/-- Whether a name answers a query, whatever the case. -/
def answers (query name : Bytes) : Bool :=
  !name.isEmpty && Bytes.contains (Bytes.lower name) (Bytes.lower (Bytes.trim query))

def ofResolution (host : Host) (query : Bytes) (r : Resolution) : List (Bytes × Wire.Symbol) :=
  ((r.layers.flatMap ofLayer).filter fun e => answers query e.name).filterMap fun e =>
    (DocumentView.fileLocation? host r.files e.declaration).map fun location =>
      (e.declaration.source.path, ⟨e.name, e.kind, location, e.declaration.source.kind.label⟩)

/-- Drop each symbol of a file that has the name and kind of an earlier one. -/
def distinct (found : List (Bytes × Wire.Symbol)) : List Wire.Symbol :=
  (found.foldl (fun kept s =>
    if kept.any fun k => k.1 == s.1 && k.2.name == s.2.name && k.2.kind == s.2.kind then kept else kept ++ [s])
    []).map (·.2)

def find (host : Host) (resolver : Resolver) (roots : List Bytes) (query : Bytes) : List Wire.Symbol :=
  distinct ((([] :: roots).map (resolver.chain host)).flatMap (ofResolution host query))

end Colloquy.Symbols
