import Colloquy.Host.Environment
import Colloquy.Host.Glob
import Colloquy.Preview.Fence
import Colloquy.Preview.Target
import Colloquy.Text.Case

/-! # Previews of link targets

What a hover over a link shows: the beginning of a text file, the entries of a directory, the matches of
a glob pattern, or why there is nothing to show. Remote targets have no preview.
-/

namespace Colloquy

/-- What a link target leads to. -/
inductive TargetKind
  | remote
  | glob
  | missing
  | directory
  | binary
  | empty
  | text
  deriving Repr, DecidableEq

def TargetKind.label : TargetKind → String
  | .remote => "remote"
  | .glob => "glob"
  | .missing => "missing"
  | .directory => "directory"
  | .binary => "binary"
  | .empty => "empty"
  | .text => "text"

/-- How much one preview may show: bytes of a file, and entries of a list. -/
structure PreviewLimits where
  bytes : Int64
  entries : Int64
  deriving Repr, DecidableEq

/-- Limits that are not positive take their default values. -/
def PreviewLimits.effective (l : PreviewLimits) : PreviewLimits :=
  ⟨if l.bytes ≤ 0 then 2048 else l.bytes, if l.entries ≤ 0 then 20 else l.entries⟩

/-- A preview and what it is a preview of. -/
structure Preview where
  kind : TargetKind
  text : Bytes
  deriving Repr, DecidableEq

namespace Target

def homeMark : Bytes := utf8 "~/"

/-- The path with the document's directory in the place of its mark. -/
def expandDirectory (dir p : Bytes) : Bytes :=
  match Bytes.after? p bracedMark, Bytes.after? p directoryMark with
  | some rest, _ => dir ++ rest
  | none, some rest => dir ++ rest
  | none, none => p

def withoutFragment (t : Bytes) : Bytes :=
  match Bytes.indexOf? t 0x23 with
  | some (i + 1) => t.take (i + 1)
  | _ => t

/-- The path that a target means in a document of directory `dir`, unless it is remote or inside the
    document. -/
def localPath? (host : Host) (dir target : Bytes) : Option Bytes :=
  let target := Bytes.trim target
  if target.isEmpty || target.head? == some 0x23 then none
  else
    let place := Bytes.after? target fileScheme
    if place.isNone && hasScheme 2 target then none
    else
      let p := expandDirectory dir (withoutFragment (place.getD target))
      let p := match Bytes.after? p homeMark, host.env.get? "HOME" with
        | some rest, some home => if home.isEmpty then p else Path.join [home, rest]
        | _, _ => p
      some (Path.clean (if Path.isAbs p then p else Path.join [dir, p]))

def isPattern (p : Bytes) : Bool := p.any fun b => b == 0x2A || b == 0x3F || b == 0x5B || b == 0x7B

/-- The language of a file, by its extension. -/
def language (p : Bytes) : Bytes :=
  let ext := Bytes.dropHead (Bytes.lower (Path.ext p)) [0x2E]
  let known := [("md", "markdown"), ("lec", "markdown"), ("yml", "yaml"), ("py", "python"),
    ("js", "javascript"), ("ts", "typescript"), ("sh", "bash"), ("txt", "")]
  match known.find? fun k => utf8 k.1 == ext with
  | some k => utf8 k.2
  | none => ext

end Target

namespace Preview

def remote : Preview := ⟨.remote, []⟩

def about (kind : TargetKind) (before path : Bytes) (after : String) : Preview :=
  ⟨kind, before ++ Fence.inline path ++ utf8 after⟩

/-- A list of at most `limit` names, with a note on how many are left out. -/
def listing (limit : Nat) (names : List Bytes) : Bytes :=
  let shown := (names.take limit).flatMap fun n => utf8 "- " ++ Fence.inline n ++ [Bytes.lf]
  let rest := names.length - limit
  if rest == 0 then Bytes.trimEndWhile shown (· == Bytes.lf)
  else shown ++ utf8 "\n… and " ++ Bytes.ofNat rest ++ utf8 " more (" ++ Bytes.ofNat names.length ++ utf8 " total)"

def ofPattern (host : Host) (limit : Nat) (pattern : Bytes) : Preview :=
  match Glob.paths host.files host.cwd pattern with
  | .error f =>
    ⟨.glob, utf8 "Invalid glob pattern " ++ Fence.inline pattern ++ utf8 ": " ++ f.message⟩
  | .ok [] => about .glob (utf8 "No files match ") pattern ""
  | .ok found => ⟨.glob, utf8 "Glob " ++ Fence.inline pattern ++ utf8 "\n\n" ++ listing limit found⟩

/-- The entries of a directory, directories marked by a slash. -/
def ofDirectory (host : Host) (limit : Nat) (path : Bytes) : Preview :=
  match host.files.find host.cwd path with
  | .error _ => about .directory (utf8 "Cannot read directory ") path ""
  | .ok (at_, _) =>
    match host.files.names at_ with
    | [] => about .directory (utf8 "Directory ") path " (empty)"
    | names =>
      let marked := names.map fun n =>
        if host.files.lookup? (at_ ++ [n]) == some .directory then n ++ [Path.slash] else n
      ⟨.directory, utf8 "Directory " ++ Fence.inline path ++ utf8 "\n\n" ++ listing limit marked⟩

/-- Drop at most `n` bytes from the end until the text is UTF-8. -/
def dropBroken : Nat → Bytes → Bytes
  | 0, t => t
  | n + 1, t => if t.isEmpty || Bytes.isUtf8 t then t else dropBroken n t.dropLast

/-- The beginning of a file. One byte past the limit is read, to see whether there is more; no bytes are
    read when that number is out of range. -/
def ofFile (limit : Int64) (path content : Bytes) : Preview :=
  let bytes := content.take (limit + 1).toNatClampNeg
  if bytes.isEmpty then about .empty (utf8 "Empty file ") path ""
  else
    let isCut := bytes.length > limit.toNatClampNeg
    let shown := if isCut then dropBroken 4 (bytes.take limit.toNatClampNeg) else bytes
    if shown.any (· == 0) || !Bytes.isUtf8 shown then
      about .binary (utf8 "Binary file ") path ", no preview"
    else
      ⟨.text, Fence.inline path ++ utf8 "\n\n" ++ Fence.wrap shown (Target.language path) ++
        (if isCut then utf8 "\n\n… (truncated)" else [])⟩

/-- The preview of a link target in a document of directory `dir`. -/
def ofTarget (host : Host) (limits : PreviewLimits) (dir target : Bytes) : Preview :=
  let limits := limits.effective
  match Target.localPath? host dir target with
  | none => remote
  | some path =>
    if Target.isPattern path then ofPattern host limits.entries.toNatClampNeg path
    else match host.stat path with
      | .error f =>
        if f.problem == .notExist then about .missing (utf8 "File not found: ") path ""
        else about .binary (utf8 "Cannot read ") path ""
      | .ok .directory => ofDirectory host limits.entries.toNatClampNeg path
      | .ok (.file content) => ofFile limits.bytes path content

end Preview

end Colloquy
