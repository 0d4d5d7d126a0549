import Colloquy.Host.FileTree

/-! # The host

What a running command sees of its surroundings: files, the current directory and the environment.
-/

namespace Colloquy

/-- Environment variables with their values. The first entry of a name counts. -/
abbrev Environment := List (Bytes × Bytes)

def Environment.get? (env : Environment) (name : String) : Option Bytes :=
  (List.find? (fun entry => entry.1 == utf8 name) env).map (·.2)

/-- Files, current directory and environment. -/
structure Host where
  files : FileTree
  cwd : Bytes
  env : Environment
  deriving Repr

namespace Host

def abs (h : Host) (path : Bytes) : Bytes := Path.abs h.cwd path

/-- The path under which a file is kept: absolute and clean. The empty path stays. -/
def normalize (h : Host) (path : Bytes) : Bytes := if path.isEmpty then [] else h.abs path

def stat (h : Host) (path : Bytes) : Except FileFault FileEntry := h.files.stat h.cwd path

def read (h : Host) (path : Bytes) : Except FileFault Bytes := h.files.read h.cwd path

end Host

end Colloquy
