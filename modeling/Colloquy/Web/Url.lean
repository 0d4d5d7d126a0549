import Colloquy.Text.Bytes
import Colloquy.Web.Escape

/-! # Web addresses

The parts of an address, how they are read and how they are written. Reading resolves escapes, and
writing puts back those that are needed; a path or a fragment that was correctly written keeps its
spelling.
-/

namespace Colloquy.Web

/-! ## Network addresses

Which texts are addresses of version 6: eight groups of up to four hexadecimal digits with colons
between them. Two colons together stand once for one or more groups of zeros, the last two groups may be
written as an address of version 4, and behind a percent sign the zone follows.
-/

/-- Whether a text is a number below 256 without a zero in front. -/
def isOctet (t : Bytes) : Bool :=
  match Bytes.toNat? t with
  | some n => n < 256 && (t.length == 1 || t.head? != some 0x30)
  | none => false

/-- Whether a text is an address of version 4: four numbers with points between them. -/
def isAddress4 (t : Bytes) : Bool :=
  let octets := Bytes.splitOn t 0x2E
  octets.length == 4 && octets.all isOctet

/-- How many groups a piece between colons stands for. Only the last piece can be of version 4. -/
def groupsOf? (isLast : Bool) (piece : Bytes) : Option Nat :=
  if piece.any (· == 0x2E) then (if isLast && isAddress4 piece then some 2 else none)
  else if !piece.isEmpty && piece.length ≤ 4 && piece.all (fun b => (Bytes.hexValue? b).isSome) then some 1
  else none

def groupsIn? : List Bytes → Option Nat
  | [] => some 0
  | piece :: pieces => do return (← groupsOf? pieces.isEmpty piece) + (← groupsIn? pieces)

/-- How many groups a stretch without two colons together stands for. A stretch that ends before the
    address does cannot end in an address of version 4. -/
def groups? (endsAddress : Bool) (t : Bytes) : Option Nat :=
  if t.isEmpty then some 0
  else if !endsAddress && t.any (· == 0x2E) then none
  else groupsIn? (Bytes.splitOn t 0x3A)

/-- Whether a text is an address of version 6 without a zone. -/
def isUnzoned6 (t : Bytes) : Bool :=
  let gap := utf8 "::"
  match Bytes.find? t gap with
  | none => groups? true t == some 8
  | some i =>
    match groups? false (t.take i), groups? true (t.drop (i + 2)) with
    | some front, some back => front + back < 8
    | _, _ => false

def isAddress6 (t : Bytes) : Bool :=
  match Bytes.cut? t 0x25 with
  | some (address, zone) => isUnzoned6 address && !zone.isEmpty
  | none => isUnzoned6 t

/-! ## Parts -/

/-- Who asks: a name and perhaps a password. -/
structure User where
  name : Bytes
  password : Option Bytes
  deriving Repr, DecidableEq

/-- An address by its parts. -/
structure Url where
  /-- In small letters; empty when there is none. -/
  scheme : Bytes := []
  /-- What follows a scheme when it does not start with a slash. Such an address has no host and path. -/
  rootless : Bytes := []
  user : Option User := none
  host : Bytes := []
  /-- Whether a host follows the scheme, even an empty one. -/
  hasHost : Bool := false
  /-- With escapes resolved. -/
  path : Bytes := []
  /-- As the path was written. -/
  writtenPath : Bytes := []
  /-- Whether there is a question mark with nothing behind it. -/
  hasEmptyQuery : Bool := false
  /-- As it was written. -/
  query : Bytes := []
  fragment : Bytes := []
  writtenFragment : Bytes := []
  deriving Repr, DecidableEq

namespace Url

/-- What lies before and behind the last `b`. -/
def cutLast? (t : Bytes) (b : UInt8) : Option (Bytes × Bytes) :=
  if t.any (· == b) then
    let tail := (t.reverse.takeWhile (· != b)).reverse
    some (t.take (t.length - tail.length - 1), tail)
  else none

/-- What lies before and behind the first `b`; without one, all lies before it. -/
def cut (t : Bytes) (b : UInt8) : Bytes × Bytes := (Bytes.cut? t b).getD (t, [])

/-- The scheme of an address and what follows its colon. An address without a scheme has the empty one,
    and an address that starts with the colon is invalid. -/
def scheme? (t : Bytes) : Option (Bytes × Bytes) :=
  let name := t.takeWhile fun b => Bytes.isLetter b || Bytes.isDigit b || b == 0x2B || b == 0x2D || b == 0x2E
  match t.drop name.length with
  | 0x3A :: rest =>
    match name with
    | [] => none
    | first :: _ => if Bytes.isLetter first then some (Bytes.lowerAscii name, rest) else some ([], t)
  | _ => some ([], t)

/-- Whether a text is nothing, or a colon and digits. -/
def isPort (t : Bytes) : Bool :=
  match t with
  | [] => true
  | b :: digits => b == 0x3A && digits.all Bytes.isDigit

/-- What stands between the brackets of a host, with escapes resolved. The zone of an address starts with
    an escaped percent sign. -/
def bracketed? (t : Bytes) : Option Bytes := do
  let inside ← match Bytes.find? t (utf8 "%25") with
    | some i => pure ((← unescape? .host (t.take i)) ++ (← unescape? .zone (t.drop i)))
    | none => unescape? .host t
  if isAddress6 inside then some inside else none

/-- A host and its port. Brackets stand around an address of version 6, and around nothing else. -/
def host? (t : Bytes) : Option Bytes :=
  match cutLast? t 0x5B with
  | some ([], rest) => do
    let (inside, port) ← cutLast? rest 0x5D
    if isPort port then
      let inside ← bracketed? inside
      return 0x5B :: inside ++ 0x5D :: port
    else none
  | some _ => none
  | none =>
    match cutLast? t 0x3A with
    | some (_, digits) => if digits.all Bytes.isDigit then unescape? .host t else none
    | none => unescape? .host t

def isUserByte (b : UInt8) : Bool := isUnreserved b || (utf8 ":!$&'()*+,;=%@").any (· == b)

def user? (t : Bytes) : Option User := do
  if !t.all isUserByte then none
  match Bytes.cut? t 0x3A with
  | some (name, password) => return ⟨← unescape? .user name, some (← unescape? .user password)⟩
  | none => return ⟨← unescape? .user t, none⟩

def authority? (t : Bytes) : Option (Option User × Bytes) := do
  match cutLast? t 0x40 with
  | some (user, host) =>
    let host ← host? host
    return (some (← user? user), host)
  | none => return (none, ← host? t)

/-- Put in what lies between the scheme and the query. A host stands behind two slashes, but three slashes
    without a scheme start a path. A path without a slash in front may hold no colon in its first
    component. -/
def withHierarchy? (u : Url) (rest : Bytes) : Option Url := do
  let isPath := Bytes.startsWith rest (utf8 "/")
  if !isPath && (cut rest 0x2F).1.any (· == 0x3A) then none
  let isHost := Bytes.startsWith rest (utf8 "//") && !(u.scheme.isEmpty && Bytes.startsWith rest (utf8 "///"))
  if isHost then
    let authority := (rest.drop 2).takeWhile (· != 0x2F)
    let path := rest.drop (2 + authority.length)
    let (user, host) ← authority? authority
    return { u with user, host, hasHost := true, path := ← unescape? .path path, writtenPath := path }
  else
    return { u with path := ← unescape? .path rest, writtenPath := rest }

/-- The address that a text without a fragment spells. -/
def parseMain? (t : Bytes) : Option Url := do
  if t.any fun b => b < 0x20 || b == 0x7F then none
  else if t == utf8 "*" then some { path := t, writtenPath := t }
  else
    let (scheme, rest) ← scheme? t
    let (front, query) := cut rest 0x3F
    let u : Url := { scheme, query, hasEmptyQuery := query.isEmpty && front.length < rest.length }
    if !scheme.isEmpty && !Bytes.startsWith front (utf8 "/") then some { u with rootless := front }
    else u.withHierarchy? front

/-- The address that a text spells. Control bytes are refused before the fragment, and broken escapes
    anywhere but in the query. -/
def parse? (t : Bytes) : Option Url := do
  let (main, fragment) := cut t 0x23
  let u ← parseMain? main
  return { u with fragment := ← unescape? .fragment fragment, writtenFragment := fragment }

def writeUser (u : User) : Bytes :=
  escape .user u.name ++ (match u.password with
    | some password => 0x3A :: escape .user password
    | none => [])

/-- The path as it stands in an address. The path of a single star is never escaped anew. -/
def escapedPath (u : Url) : Bytes :=
  let fresh := escape .path u.path
  if u.writtenPath != fresh && isWritten .path u.writtenPath then u.writtenPath
  else if u.path == utf8 "*" then u.path
  else fresh

def escapedFragment (u : Url) : Bytes :=
  if isWritten .fragment u.writtenFragment then u.writtenFragment else escape .fragment u.fragment

def showsHost (u : Url) : Bool :=
  let isNamed := !u.host.isEmpty || u.user.isSome
  isNamed || (!u.scheme.isEmpty && u.hasHost && !u.path.isEmpty)

/-- What is written between the scheme and the query. A component that would look like a scheme gets a dot
    and a slash in front. -/
def hierarchy (u : Url) : Bytes :=
  let path := u.escapedPath
  let authority :=
    if u.showsHost then
      utf8 "//" ++ (match u.user with
        | some user => writeUser user ++ [0x40]
        | none => []) ++ escape .host u.host
    else []
  let slash := if !path.isEmpty && path.head? != some 0x2F && !u.host.isEmpty then [0x2F] else []
  let looksLikeScheme := u.scheme.isEmpty && authority.isEmpty && (cut path 0x2F).1.any (· == 0x3A)
  authority ++ slash ++ (if looksLikeScheme then utf8 "./" else []) ++ path

def toBytes (u : Url) : Bytes :=
  (if u.scheme.isEmpty then [] else u.scheme ++ [0x3A]) ++
    (if u.rootless.isEmpty then u.hierarchy else u.rootless) ++
    (if u.hasEmptyQuery || !u.query.isEmpty then 0x3F :: u.query else []) ++
    (if u.fragment.isEmpty then [] else 0x23 :: u.escapedFragment)

end Url

end Colloquy.Web
