import Colloquy.Host.FileTree
import Colloquy.Text.Rune

/-! # Glob patterns

Files whose paths match a pattern. In a component, `*` stands for any characters, `?` for one, brackets
for one of a class (negated by `^`) and braces for alternatives; a backslash takes the next character
as it is. The component `**` stands for any directories, and at the end of a pattern for everything
below. Hidden files are not special.

Alternatives may hold slashes, so a name can leave several patterns for what lies below it: a file is
found once for every way that leads to it. A pattern is only read as far as names match it, so a fault
in it shows only where a name leads.
-/

namespace Colloquy.Glob

/-- A faulty pattern. -/
inductive Fault
  | badPattern
  deriving Repr, DecidableEq

def Fault.message : Fault → Bytes
  | .badPattern => utf8 "syntax error in pattern"

/-- What lies before and behind the first `c` that does not follow a backslash. -/
def cutFrom (c : UInt8) (escaped : Bool) (done : Bytes) : Bytes → Option (Bytes × Bytes)
  | [] => none
  | b :: rest =>
    if b == c && !escaped then some (done.reverse, rest)
    else cutFrom c (b == 0x5C) (b :: done) rest

/-- What lies before and behind the first `c` that does not follow a backslash. -/
def cut? (c : UInt8) (pattern : Bytes) : Option (Bytes × Bytes) := cutFrom c false [] pattern

/-- One bound of a range in a class, and what follows it. -/
def bound? : List Nat → Option (Nat × List Nat)
  | [] => none
  | 0x2D :: _ => none
  | [0x5C] => none
  | 0x5C :: c :: rest => some (c, rest)
  | c :: rest => some (c, rest)

def classHolds (c : Nat) : (fuel : Nat) → List Nat → Except Fault Bool
  | 0, _ => .ok false
  | _ + 1, [] => .ok false
  | fuel + 1, items =>
    match bound? items with
    | none => .error .badPattern
    | some (low, 0x2D :: rest) =>
      match bound? rest with
      | none => .error .badPattern
      | some (high, rest) => do
        let more ← classHolds c fuel rest
        return (low ≤ c && c ≤ high) || more
    | some (low, rest) => do
      let more ← classHolds c fuel rest
      return low == c || more

def classMatches (c : Nat) (items : List Nat) : Except Fault Bool :=
  match items with
  | [] => .error .badPattern
  | 0x5E :: rest => do return !(← classHolds c (rest.length + 1) rest)
  | _ => classHolds c (items.length + 1) items

/-- The alternatives of a group of braces whose first brace is read, and the pattern behind the group.
    `depth` groups are open inside, `current` is the alternative being read, in reverse, and `done` are
    those before it, in reverse. -/
def groupFrom (depth : Nat) (done : List Bytes) (current : Bytes) : Bytes → Option (List Bytes × Bytes)
  | [] => none
  | 0x5C :: c :: rest => groupFrom depth done (c :: 0x5C :: current) rest
  | b :: rest =>
    if b == 0x7D && depth == 0 then some ((current.reverse :: done).reverse, rest)
    else if b == 0x2C && depth == 0 then groupFrom depth (current.reverse :: done) [] rest
    else
      let depth := if b == 0x7B then depth + 1 else if b == 0x7D then depth - 1 else depth
      groupFrom depth done (b :: current) rest

/-- The alternatives of a group of braces whose first brace is read, and the pattern behind the group;
    nothing if the group is not closed. -/
def group? (pattern : Bytes) : Option (List Bytes × Bytes) := groupFrom 0 [] [] pattern

/-- Whether a component matches the empty name: stars do, and groups with an alternative that does. -/
def matchesEmpty : (fuel : Nat) → (component : Bytes) → Except Fault Bool
  | 0, _ => .ok false
  | _ + 1, [] => .ok true
  | _ + 1, [0x2A] => .ok true
  | _ + 1, [0x2A, 0x2A] => .ok true
  | fuel + 1, 0x7B :: rest =>
    match group? rest with
    | none => .error .badPattern
    | some (options, rest) => do
      if ← matchesEmpty fuel rest then options.anyM (matchesEmpty fuel) else return false
  | _ + 1, _ => .ok false

/-- What a pattern leaves when a name matches its first component: the patterns for what lies below the
    name, none of them if the pattern ends there. `none` means that the name does not match. -/
abbrev Remains := Option (List Bytes)

/-- What a pattern leaves behind a name of which nothing is left. -/
def remainsAtEnd (pattern : Bytes) : Except Fault Remains := do
  let (component, below) := match cut? Path.slash pattern with
    | some (component, below) => (component, [below])
    | none => (pattern, [])
  return if ← matchesEmpty (component.length + 1) component then some below else none

/-- All ends of a name that start at a character, longest first, the empty one excluded. -/
def endsFrom : (skip : Nat) → Bytes → List Bytes
  | _, [] => []
  | skip + 1, _ :: rest => endsFrom skip rest
  | 0, b :: rest => (b :: rest) :: endsFrom ((Rune.decode b rest).width - 1) rest

/-- What the first of the names that matches leaves. -/
def firstRemains (remains : Bytes → Except Fault Remains) : List Bytes → Except Fault Remains
  | [] => .ok none
  | name :: names => do
    match ← remains name with
    | some below => return some below
    | none => firstRemains remains names

/-- What all the results leave together; the name matches if one of them does. -/
def merge (results : List Remains) : Remains :=
  let hits := results.filterMap id
  if hits.isEmpty then none else some hits.flatten

/-- What a pattern leaves when its first component is matched against a name. -/
def matchFrom : (fuel : Nat) → (pattern name : Bytes) → Except Fault Remains
  | 0, _, _ => .ok none
  | _ + 1, pattern, [] => remainsAtEnd pattern
  | _ + 1, [], _ :: _ => .ok none
  | fuel + 1, p :: pattern, c :: name =>
    let char := Rune.decode c name
    let behind := (c :: name).drop char.width
    if p == Path.slash then .ok none
    else if p == 0x5C then
      match pattern with
      | [] => .error .badPattern
      | e :: rest =>
        let escaped := Rune.decode e rest
        if escaped.code == Rune.replacement then .error .badPattern
        else if escaped.code == char.code then matchFrom fuel (pattern.drop escaped.width) behind
        else .ok none
    else if p == 0x2A then
      match pattern with
      | [] => .ok (some [])
      | b :: below =>
        if b == Path.slash then .ok (some [below])
        else firstRemains (matchFrom fuel pattern) (endsFrom 0 (c :: name))
    else if p == 0x5B then
      match cut? 0x5D pattern with
      | none => .error .badPattern
      | some (items, pattern) => do
        if ← classMatches char.code (Bytes.codes items) then matchFrom fuel pattern behind
        else return none
    else if p == 0x7B then
      match group? pattern with
      | none => .error .badPattern
      | some (options, pattern) => do
        let results ← options.mapM fun option => matchFrom fuel (option ++ pattern) (c :: name)
        return merge results
    else
      let literal := Rune.decode p pattern
      if p == 0x3F || literal.code == char.code then
        matchFrom fuel ((p :: pattern).drop literal.width) behind
      else .ok none

/-- What a pattern leaves when its first component is matched against a name. -/
def remains (pattern name : Bytes) : Except Fault Remains := matchFrom (pattern.length + 1) pattern name

def isSpecial (b : UInt8) : Bool := b == 0x2A || b == 0x3F || b == 0x5B || b == 0x7B || b == 0x5C

/-- Move the components before the first special character from the pattern to the directory. A slash in
    front of the pattern stays. -/
def advance (dir pattern : Bytes) : Bytes × Bytes :=
  let plain := pattern.takeWhile fun b => !isSpecial b
  let front := Bytes.trimEndWhile plain (· != Path.slash)
  if front.length > 1 then (Path.join [dir, front.dropLast], pattern.drop front.length)
  else (dir, pattern)

/-- What a search has found, and the fault that its last step met. A fault further down does not end a
    search, and is forgotten when another step follows. -/
structure Found where
  paths : List Bytes := []
  fault : Option Fault := none
  deriving Repr, DecidableEq

/-- What two searches have found, one behind the other. -/
def Found.andThen (first second : Found) : Found := ⟨first.paths ++ second.paths, second.fault⟩

/-- Match the names of a directory against a pattern, and search below those that match with what the
    pattern leaves. A name at which the pattern is faulty ends this. -/
def matchNames (below : (dir pattern : Bytes) → Found) (dir pattern : Bytes) (found : Found) :
    List Bytes → Found
  | [] => found
  | name :: names =>
    let path := Path.join [dir, name]
    match remains pattern name with
    | .error fault => ⟨found.paths, some fault⟩
    | .ok none => matchNames below dir pattern ⟨found.paths, none⟩ names
    | .ok (some []) => matchNames below dir pattern ⟨found.paths ++ [path], none⟩ names
    | .ok (some rests) =>
      matchNames below dir pattern (rests.foldl (fun found rest => found.andThen (below path rest)) found) names

def search (t : FileTree) (cwd : Bytes) : (fuel : Nat) → (dir pattern : Bytes) → Found
  | 0, _, _ => {}
  | fuel + 1, dir, pattern =>
    let (dir, pattern) := advance dir pattern
    match t.find cwd dir with
    | .error _ => {}
    | .ok (at_, entry) =>
      if pattern.isEmpty then { paths := [dir] }
      else match entry with
        | .file _ => {}
        | .directory =>
          let names := t.names at_
          let (component, rest) := match cut? Path.slash pattern with
            | some (component, rest) => (component, some rest)
            | none => (pattern, none)
          if component == [0x2A, 0x2A] then
            let deeper := names.foldl (fun found name =>
              let path := Path.join [dir, name]
              let found := if rest.isNone then { found with paths := found.paths ++ [path] } else found
              if t.lookup? (at_ ++ [name]) == some .directory then
                found.andThen (search t cwd fuel path pattern)
              else found) {}
            match rest with
            | none => deeper
            | some rest => matchNames (search t cwd fuel) dir rest deeper names
          else matchNames (search t cwd fuel) dir pattern {} names

/-- Search for a pattern. One that starts with alternatives is searched for once for each; a slash or a
    backslash in front means the root. -/
def searchAll (t : FileTree) (cwd : Bytes) : (fuel : Nat) → (pattern : Bytes) → Except Fault (List Bytes)
  | 0, _ => .ok []
  | _ + 1, [] => .ok []
  | fuel + 1, b :: rest =>
    if b == 0x7B then
      match group? rest with
      | none => .error .badPattern
      | some (options, rest) => do
        return (← options.mapM fun option => searchAll t cwd fuel (option ++ rest)).flatten
    else
      let steps := (rest.length + 2) * (t.entries.length + 2)
      let found :=
        if b == Path.slash || b == 0x5C then search t cwd steps [Path.slash] rest
        else search t cwd steps Path.here (b :: rest)
      match found.fault with
      | some fault => .error fault
      | none => .ok found.paths

/-- The files and directories that a pattern matches, in byte order. -/
def paths (t : FileTree) (cwd pattern : Bytes) : Except Fault (List Bytes) :=
  (searchAll t cwd (pattern.length + 1) pattern).map Bytes.sorted

end Colloquy.Glob
