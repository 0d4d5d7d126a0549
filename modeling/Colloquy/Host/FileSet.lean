import Colloquy.Host.Environment
import Colloquy.Text.LineIndex

/-! # File sets

The files read so far, by normalized path. A file is read once; text can also be put under a path
without reading.
-/

namespace Colloquy

/-- A text and the path it is kept under. -/
structure SourceFile where
  path : Bytes
  text : Bytes
  deriving Repr, DecidableEq, BEq

def SourceFile.range (f : SourceFile) (s : Span) : Range := (LineIndex.ofText f.text).range s

/-- Files by path; paths are unique. -/
structure FileSet where
  files : List SourceFile
  deriving Repr, DecidableEq

namespace FileSet

def empty : FileSet := ⟨[]⟩

def get? (s : FileSet) (host : Host) (path : Bytes) : Option SourceFile :=
  let key := host.normalize path
  s.files.find? fun f => f.path == key

/-- Put a text under a path, in the place of what was there. -/
def add (s : FileSet) (host : Host) (path text : Bytes) : SourceFile × FileSet :=
  let f : SourceFile := ⟨host.normalize path, text⟩
  (f, ⟨(s.files.filter fun g => g.path != f.path) ++ [f]⟩)

/-- The file under a path, read if it is not there. -/
def load (s : FileSet) (host : Host) (path : Bytes) : Except FileFault (SourceFile × FileSet) :=
  match s.get? host path with
  | some f => .ok (f, s)
  | none =>
    match host.read (host.normalize path) with
    | .ok text => .ok (s.add host (host.normalize path) text)
    | .error f => .error f

def paths (s : FileSet) : List Bytes := Bytes.sorted (s.files.map SourceFile.path)

end FileSet

end Colloquy
