import Colloquy.Host.Path
import Colloquy.Text.Space

/-! # Link targets

What the target of a link is: a remote address, a file URL or a path. File URLs and paths should be
absolute or start at the document's directory, for which `$PWD` stands; others can be turned into such.
-/

namespace Colloquy.Target

def fileScheme : Bytes := utf8 "file://"

def directoryMark : Bytes := utf8 "$PWD"

def bracedMark : Bytes := utf8 "$\x7bPWD\x7d"

def isAnchored (p : Bytes) : Bool := Bytes.startsWith p directoryMark || Bytes.startsWith p bracedMark

/-- A byte of a scheme other than its first. -/
def isSchemeByte (b : UInt8) : Bool :=
  Bytes.isLetter b || Bytes.isDigit b || b == 0x2B || b == 0x2D || b == 0x2E

/-- Whether the target starts with a scheme of at least `least` bytes and its colon. -/
def hasScheme (least : Nat) (t : Bytes) : Bool :=
  let name := t.takeWhile isSchemeByte
  (name.head?.map Bytes.isLetter).getD false && least ≤ name.length && t[name.length]? == some 0x3A

/-- A file URL with a path that is neither absolute nor anchored. -/
def isRelativeFile (t : Bytes) : Bool :=
  match Bytes.after? t fileScheme with
  | some p => !Path.isAbs p && !isAnchored p
  | none => false

/-- A path that is neither absolute nor anchored, nor at home, nor a place inside the document. -/
def isRelativePath (t : Bytes) : Bool :=
  !(t.isEmpty || Path.isAbs t || t.head? == some 0x23 || isAnchored t) && !hasScheme 1 t &&
    t.head? != some 0x7E

def anchored (p : Bytes) : Bytes :=
  let clean := Path.clean p
  if clean == Path.here then fileScheme ++ directoryMark
  else fileScheme ++ directoryMark ++ [Path.slash] ++ clean

def absolute? (t : Bytes) : Option Bytes :=
  if isRelativeFile t then some (anchored (t.drop fileScheme.length))
  else if isRelativePath t then some (anchored t)
  else none

end Colloquy.Target
