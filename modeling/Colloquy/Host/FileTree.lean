import Colloquy.Host.Path

/-! # File trees

A file system as a value: files and directories below a root. Looking a path up walks its components as
an operating system does, so a path through a file or through a missing directory fails in its own way.
-/

namespace Colloquy

/-- Why a file operation fails. -/
inductive FileProblem
  | notExist
  | notDirectory
  | isDirectory
  | nameTooLong
  | invalid
  deriving Repr, DecidableEq

def FileProblem.text : FileProblem → Bytes
  | .notExist => utf8 "no such file or directory"
  | .notDirectory => utf8 "not a directory"
  | .isDirectory => utf8 "is a directory"
  | .nameTooLong => utf8 "file name too long"
  | .invalid => utf8 "invalid argument"

/-- A failed file operation: what was done to which path, and what went wrong. -/
structure FileFault where
  action : String
  path : Bytes
  problem : FileProblem
  deriving Repr, DecidableEq

def FileFault.message (f : FileFault) : Bytes :=
  utf8 f.action ++ utf8 " " ++ f.path ++ utf8 ": " ++ f.problem.text

/-- A file with its content, or a directory. -/
inductive FileEntry
  | file (content : Bytes)
  | directory
  deriving Repr, DecidableEq

/-- Files and directories by their components below the root. Parents of entries are entries. -/
structure FileTree where
  entries : List (List Bytes × FileEntry)
  deriving Repr, DecidableEq

namespace FileTree

/-- A tree with nothing but the root. -/
def empty : FileTree := ⟨[]⟩

def lookup? (t : FileTree) (at_ : List Bytes) : Option FileEntry :=
  if at_.isEmpty then some .directory else (t.entries.find? fun e => e.1 == at_).map (·.2)

/-- Put an entry at the components, in the place of what is there. -/
def put (t : FileTree) (at_ : List Bytes) (entry : FileEntry) : FileTree :=
  ⟨(t.entries.filter fun e => e.1 != at_) ++ [(at_, entry)]⟩

/-- Make the directories that are missing, down the components. -/
def makeParents (t : FileTree) (done : List Bytes) : List Bytes → FileTree
  | [] => t
  | c :: rest =>
    let at_ := done ++ [c]
    let t := if (t.lookup? at_).isSome then t else t.put at_ .directory
    makeParents t at_ rest

/-- Put an entry at an absolute path, with its parents. -/
def add (t : FileTree) (path : Bytes) (entry : FileEntry) : FileTree :=
  let at_ := Path.cleaned path
  let t := t.makeParents [] at_.dropLast
  match entry, t.lookup? at_ with
  | .directory, some .directory => t
  | entry, _ => t.put at_ entry

def remove (t : FileTree) (path : Bytes) : FileTree :=
  let at_ := Path.cleaned path
  ⟨t.entries.filter fun e => !at_.isPrefixOf e.1⟩

/-- The names in a directory, in byte order. -/
def names (t : FileTree) (at_ : List Bytes) : List Bytes :=
  Bytes.sorted (t.entries.filterMap fun e =>
    if e.1.length == at_.length + 1 && at_.isPrefixOf e.1 then e.1.getLast? else none)

def maxName : Nat := 255

def maxPath : Nat := 4096

/-- Walk the components from `at_`, which must be a directory as long as a component follows. -/
def walk (t : FileTree) (at_ : List Bytes) : List Bytes → Except FileProblem (List Bytes × FileEntry)
  | [] => match t.lookup? at_ with
    | some entry => .ok (at_, entry)
    | none => .error .notExist
  | c :: rest =>
    match t.lookup? at_ with
    | none => .error .notExist
    | some (.file _) => .error .notDirectory
    | some .directory =>
      if c.isEmpty || c == Path.here then walk t at_ rest
      else if c == Path.up then walk t at_.dropLast rest
      else if c.length > maxName then .error .nameTooLong
      else walk t (at_ ++ [c]) rest

/-- What lies at a path, where relative paths start at the absolute path `cwd`. -/
def find (t : FileTree) (cwd path : Bytes) : Except FileProblem (List Bytes × FileEntry) :=
  if path.any (· == 0) then .error .invalid
  else if path.isEmpty then .error .notExist
  else if path.length ≥ maxPath then .error .nameTooLong
  else t.walk (if Path.isAbs path then [] else Path.cleaned cwd) (Path.components path)

def stat (t : FileTree) (cwd path : Bytes) : Except FileFault FileEntry :=
  match t.find cwd path with
  | .ok (_, entry) => .ok entry
  | .error p => .error ⟨"stat", path, p⟩

def read (t : FileTree) (cwd path : Bytes) : Except FileFault Bytes :=
  match t.find cwd path with
  | .ok (_, .file content) => .ok content
  | .ok (_, .directory) => .error ⟨"read", path, .isDirectory⟩
  | .error p => .error ⟨"open", path, p⟩

/-- Split the last component from those before it; trailing empty ones stand for a slash at the end. -/
def splitLast (cs : List Bytes) : List Bytes × Bytes := (cs.dropLast, cs.getLast?.getD [])

/-- Make a file, or replace the content of one. Its directory must exist, and nothing that can only be a
    directory can be made. -/
def create (t : FileTree) (cwd path content : Bytes) : Except FileFault FileTree :=
  let result : Except FileProblem FileTree := do
    if path.any (· == 0) then .error .invalid
    if path.isEmpty then .error .notExist
    if path.length ≥ maxPath then .error .nameTooLong
    let (parents, last) := splitLast (Path.components path)
    let (at_, entry) ← t.walk (if Path.isAbs path then [] else Path.cleaned cwd) parents
    if entry != .directory then .error .notDirectory
    if last.isEmpty || last == Path.here || last == Path.up then .error .isDirectory
    if last.length > maxName then .error .nameTooLong
    match t.lookup? (at_ ++ [last]) with
    | some .directory => .error .isDirectory
    | _ => return t.put (at_ ++ [last]) (.file content)
  result.mapError fun p => ⟨"open", path, p⟩

end FileTree

end Colloquy
