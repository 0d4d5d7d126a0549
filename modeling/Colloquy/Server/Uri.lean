import Colloquy.Host.Path
import Colloquy.Web.Url

/-! # Document addresses

Editors name documents by URI. A file URI, or a text without a scheme, means a path; any other URI has no
path and names only itself. Two spellings of one file have the same canonical URI.
-/

namespace Colloquy.Uri

def fileScheme : Bytes := utf8 "file"

/-- The absolute path that an address means. Escapes are resolved once more where that is possible. -/
def path? (cwd t : Bytes) : Option Bytes :=
  if t.isEmpty then none
  else do
    let url ← Web.Url.parse? t
    if !url.scheme.isEmpty && url.scheme != fileScheme then none
    let p := if url.scheme.isEmpty then t else url.path
    return Path.abs cwd ((Web.unescape? .path p).getD p)

def ofPath (cwd p : Bytes) : Bytes :=
  if p.isEmpty then [] else utf8 "file://" ++ Web.escape .path (Path.abs cwd p)

def canonical (cwd t : Bytes) : Bytes :=
  match path? cwd t with
  | some p => ofPath cwd p
  | none => t

/-- The directory of a document; empty for one that is no file. -/
def directory (cwd t : Bytes) : Bytes := ((path? cwd t).map Path.dir).getD []

end Colloquy.Uri
