import Colloquy.Text.Bytes

/-! # Paths

Lexical operations on slash-separated paths: nothing here looks at a file system. A path is absolute
when it starts with a slash. Cleaning removes empty and `.` components, lets `..` cancel the component
before it, and keeps a leading `..` only in a relative path.
-/

namespace Colloquy.Path

def slash : UInt8 := 0x2F

def here : Bytes := [0x2E]

def up : Bytes := [0x2E, 0x2E]

def isAbs (p : Bytes) : Bool := p.head? == some slash

/-- The components between slashes, empty ones included. -/
def components (p : Bytes) : List Bytes := Bytes.splitOn p slash

/-- One step of cleaning, on the components kept so far in reverse. -/
def cleanStep (rooted : Bool) (kept : List Bytes) (c : Bytes) : List Bytes :=
  if c.isEmpty || c == here then kept
  else if c == up then
    match kept with
    | [] => if rooted then [] else [up]
    | last :: rest => if last == up then up :: kept else rest
  else c :: kept

def cleaned (p : Bytes) : List Bytes := ((components p).foldl (cleanStep (isAbs p)) []).reverse

def ofComponents (rooted : Bool) (cs : List Bytes) : Bytes :=
  if rooted then slash :: Bytes.join [slash] cs
  else if cs.isEmpty then here
  else Bytes.join [slash] cs

def clean (p : Bytes) : Bytes := ofComponents (isAbs p) (cleaned p)

/-- The non-empty parts joined and cleaned; nothing if there are none. -/
def join (parts : List Bytes) : Bytes :=
  let parts := parts.filter fun p => !p.isEmpty
  if parts.isEmpty then [] else clean (Bytes.join [slash] parts)

/-- The path as seen from the root, where relative paths start at `cwd`. -/
def abs (cwd p : Bytes) : Bytes := if isAbs p then clean p else join [cwd, p]

/-- The last component; trailing slashes do not count. -/
def base (p : Bytes) : Bytes :=
  if p.isEmpty then here
  else
    let trimmed := Bytes.trimEndWhile p (· == slash)
    if trimmed.isEmpty then [slash] else (components trimmed).getLast?.getD []

/-- Everything before the last component, cleaned. -/
def dir (p : Bytes) : Bytes :=
  clean (Bytes.trimEndWhile p (· != slash))

/-- The last component's part from its last dot on. -/
def ext (p : Bytes) : Bytes :=
  let last := (components p).getLast?.getD []
  if last.any (· == 0x2E) then 0x2E :: (last.reverse.takeWhile (· != 0x2E)).reverse else []

def words (p : Bytes) : List Bytes :=
  if p.isEmpty then [] else if p == [slash] then [[]] else components p

/-- What is left of two lists behind their common front. -/
def dropCommon : List Bytes → List Bytes → List Bytes × List Bytes
  | a :: as, b :: bs => if a == b then dropCommon as bs else (a :: as, b :: bs)
  | as, bs => (as, bs)

/-- The path that leads from `base` to `target`, if it can be told without looking. -/
def rel? (base target : Bytes) : Option Bytes :=
  let base := clean base
  let target := clean target
  if base == target then some here
  else
    let base := if base == here then [] else base
    if isAbs base != isAbs target then none
    else
      let (ups, downs) := dropCommon (words base) (words target)
      if !downs.isEmpty && ups.head? == some up then none
      else some (Bytes.join [slash] (ups.map (fun _ => up) ++ downs.filter (· != here)))

/-- The directory and all directories above it, nearest first, as component lists. -/
def ancestors : (reversed : List Bytes) → List (List Bytes)
  | [] => [[]]
  | c :: rest => (c :: rest).reverse :: ancestors rest

end Colloquy.Path
