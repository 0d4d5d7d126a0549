import Colloquy.Report.Style

/-! # Releases

The version of the program, and the commit and date of its build.
-/

namespace Colloquy

/-- A version, the commit it was built from and when; the last two may be empty. -/
structure Release where
  version : Bytes
  commit : Bytes := []
  date : Bytes := []
  deriving Repr, DecidableEq

namespace Release

def current : Release := { version := utf8 "0.1.0-dev" }

/-- Whether a byte starts the part of a version behind its numbers. -/
def startsSuffix (b : UInt8) : Bool := b == 0x2D || b == 0x2B

/-- The version with its three numbers in colours of their own; other versions are as they are. -/
def pretty (r : Release) (color : Bool) : Bytes :=
  let core := r.version.takeWhile fun b => !startsSuffix b
  let suffix := r.version.drop core.length
  match Bytes.splitOn core 0x2E with
  | major :: minor :: patch :: rest =>
    Style.label color [33, 1] major ++ utf8 "." ++ Style.label color [32, 1] minor ++ utf8 "." ++
      Style.label color [34, 1] (Bytes.join (utf8 ".") (patch :: rest)) ++ suffix
  | _ => r.version

/-- The first twelve characters of the commit. -/
def shortCommit (r : Release) : Bytes := r.commit.take 12

end Release

end Colloquy
