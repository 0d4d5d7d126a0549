import Colloquy.Config.Discovery
import Colloquy.Config.Spec
import Colloquy.Host.FileSet

/-! # Resolving the configuration of a document

The chain of sources for a document: the user's configuration file, the nearest workspace configuration
and the document's header, lowest precedence first. A source that is missing is left out; one that
cannot be read or parsed is reported.
-/

namespace Colloquy

/-- Why a source does not count. -/
inductive SourceProblem
  | file (fault : FileFault)
  | layer (fault : LayerFault)
  deriving Repr, DecidableEq

def SourceProblem.message : SourceProblem → Bytes
  | .file f => f.message
  | .layer f => f.message

/-- A source that does not count, why, and where in it. -/
structure SourceFault where
  source : Source
  problem : SourceProblem
  span : Span
  deriving Repr, DecidableEq

/-- The kinds of entity that can be looked up by name. -/
inductive EntityKind
  | interlocutor
  | expansion
  | kit
  deriving Repr, DecidableEq

/-- Where an entity is declared. -/
structure Declaration where
  source : Source
  span : Span
  deriving Repr, DecidableEq

/-- A resolved chain. -/
structure Resolution where
  /-- From lowest to highest precedence, broken ones included. -/
  layers : List Layer
  /-- The files that were read, in order. -/
  paths : List Bytes
  files : FileSet
  faults : List SourceFault
  deriving Repr

/-- How configuration is resolved. -/
structure Resolver where
  /-- The user's configuration file; empty for none. -/
  systemPath : Bytes
  /-- Whether the search for a workspace configuration is cut short. -/
  stopped : Bool
  deriving Repr, DecidableEq

namespace Resolution

def empty : Resolution := ⟨[], [], FileSet.empty, []⟩

def spec (r : Resolution) : Spec := Spec.merge (r.layers.map some)

def sources (r : Resolution) : List Source := (Spec.sound (r.layers.map some)).map Layer.source

def add (r : Resolution) (l : Layer) : Resolution :=
  { r with
    layers := r.layers ++ [l]
    faults := r.faults ++ match l.fault with
      | some (f, span) => [⟨l.source, .layer f, span⟩]
      | none => [] }

def load (r : Resolution) (host : Host) (source : Source) : Resolution :=
  match r.files.load host source.path with
  | .ok (f, files) =>
    { r with files := files, paths := r.paths ++ [f.path] }.add (Layer.ofText { source with path := f.path } f.text 0)
  | .error f =>
    if f.problem = .notExist then r else { r with faults := r.faults ++ [⟨source, .file f, ⟨0, 0⟩⟩] }

def findIn (kind : EntityKind) (name : Bytes) (l : Layer) : Option Declaration :=
  match kind with
  | .interlocutor =>
    (l.interlocutors.find? fun it => it.name == name).map fun it => ⟨it.source, it.nameSpan⟩
  | .kit => (l.kits.find? fun k => k.name == name).map fun k => ⟨k.source, k.nameSpan⟩
  | .expansion =>
    (l.macros.find? fun m => m.key == Bytes.fold name).map fun m => ⟨m.source, m.nameSpan⟩

/-- The declaration of a name in the layer of highest precedence that has one. -/
def find? (r : Resolution) (kind : EntityKind) (name : Bytes) : Option Declaration :=
  r.layers.reverse.findSome? (findIn kind name)

end Resolution

namespace Resolver

def samePath (host : Host) (a b : Bytes) : Bool :=
  !a.isEmpty && !b.isEmpty && host.abs a == host.abs b

/-- The layers of the files for a directory: the user's configuration and the nearest workspace
    configuration, unless that is the same file. An empty directory has no workspace. -/
def chain (r : Resolver) (host : Host) (dir : Bytes) : Resolution :=
  let res := if r.systemPath.isEmpty then Resolution.empty
    else Resolution.empty.load host ⟨.system, r.systemPath⟩
  if dir.isEmpty then res
  else match Discovery.workspaceConfig host dir r.stopped with
    | .found path =>
      if samePath host path r.systemPath then res else res.load host ⟨.workspace, path⟩
    | _ => res

/-- The layer of a document's header, which starts at `offset` of the document. -/
def headerLayer (docPath header : Bytes) (offset : Int) : Layer :=
  Layer.ofText ⟨.header, docPath⟩ header offset

def resolve (r : Resolver) (host : Host) (dir docPath header : Bytes) (offset : Int) : Resolution :=
  (r.chain host dir).add (headerLayer docPath header offset)

end Resolver

end Colloquy
