import Colloquy.Json.Basic
import Colloquy.Text.Case
import Colloquy.Text.Quoted
import Colloquy.Text.Space
import Colloquy.Time.Moment

/-! # Trace events

What a trace tells, one event per line, either for a reader or as JSON.
-/

namespace Colloquy.Trace

/-! ## Trace levels

How much a trace tells. An event belongs to a scope, coarse or fine, and a level lets scopes through up
to a certain fineness. Errors pass every level but `off`.
-/

/-- How much is told. -/
inductive Level
  /-- Nothing. -/
  | off
  /-- Failures only. -/
  | error
  /-- The server's life and one span per message. -/
  | request
  /-- Steps inside a request. -/
  | detail
  /-- Everything. -/
  | debug
  deriving Repr, DecidableEq

/-- The scope of an event; a lower rank is coarser. -/
structure Scope where
  rank : UInt8
  deriving Repr, DecidableEq

namespace Scope

def server : Scope := ⟨1⟩
def request : Scope := ⟨2⟩
def feature : Scope := ⟨3⟩
def external : Scope := ⟨4⟩

def label (s : Scope) : String :=
  match s.rank with
  | 1 => "server"
  | 2 => "request"
  | 3 => "feature"
  | 4 => "io"
  | _ => "unknown"

end Scope

namespace Level

def label : Level → String
  | .off => "off"
  | .error => "error"
  | .request => "request"
  | .detail => "detail"
  | .debug => "debug"

/-- All levels, from the least to the most that is told. -/
def all : List Level := [.off, .error, .request, .detail, .debug]

/-- A level that is not known, as it was written. -/
structure Fault where
  text : Bytes
  deriving Repr, DecidableEq

def Fault.message (f : Fault) : Bytes :=
  utf8 "invalid trace level: " ++ Quoted.encode f.text ++ utf8 " (expected: off|error|request|detail|debug)"

/-- The level of a word in any case; no word means no trace. -/
def ofText (t : Bytes) : Except Fault Level :=
  let word := Bytes.lower (Bytes.trim t)
  if word.isEmpty then .ok .off
  else match all.find? fun l => utf8 l.label == word with
    | some l => .ok l
    | none => .error ⟨t⟩

/-- Whether an event of a scope that is no error is told. -/
def emits (l : Level) (s : Scope) : Bool :=
  match l with
  | .off => false
  | .error => false
  | .request => s.rank ≤ Scope.request.rank
  | .detail => s.rank ≤ Scope.feature.rank
  | .debug => true

def isEnabled (l : Level) : Bool := l != .off

end Level

/-! ## Events -/

/-- The kind of an event, by its number. -/
structure Kind where
  number : UInt8
  deriving Repr, DecidableEq

namespace Kind

def spanBegin : Kind := ⟨1⟩
def spanEnd : Kind := ⟨2⟩
def point : Kind := ⟨3⟩
def error : Kind := ⟨4⟩

def label (k : Kind) : String :=
  match k.number with
  | 1 => "begin"
  | 2 => "end"
  | 3 => "point"
  | 4 => "error"
  | _ => "unknown"

def sign (k : Kind) : String :=
  match k.number with
  | 1 => "→ "
  | 2 => "← "
  | 3 => "• "
  | 4 => "! "
  | _ => ""

end Kind

/-- The ways to write events. -/
inductive Format
  /-- As the name of the output tells. -/
  | auto
  | text
  | json
  deriving Repr, DecidableEq

namespace Format

def ofText (t : Bytes) : Format :=
  let word := Bytes.lower t
  if word == utf8 "ndjson" || word == utf8 "json" then .json
  else if word == utf8 "text" then .text
  else .auto

def forPath (f : Format) (path : Bytes) : Format :=
  if f != .auto then f
  else if Bytes.endsWith path (utf8 ".ndjson") || Bytes.endsWith path (utf8 ".json") then .json
  else .text

end Format

/-- An event. A span or parent of zero means none; names of `extra` are unique. -/
structure Event where
  time : Moment := 0
  seq : Nat := 0
  kind : Kind
  scope : Scope
  span : Nat := 0
  parent : Nat := 0
  name : Bytes
  detail : Bytes := []
  extra : List (Bytes × Bytes) := []
  deriving Repr, DecidableEq

namespace Event

def sortedExtra (e : Event) : List (Bytes × Bytes) := e.extra.mergeSort fun a b => Bytes.le a.1 b.1

/-- The event as a JSON object; empty parts are left out. -/
def toJson (e : Event) : Json :=
  let number (name : String) (n : Nat) : List (String × Json) := if n == 0 then [] else [(name, .ofNat n)]
  Json.obj ([("time", Json.ofText e.time.stamp), ("seq", .ofNat e.seq), ("kind", Json.str e.kind.label),
      ("scope", Json.str e.scope.label)] ++ number "span_id" e.span ++ number "parent_id" e.parent ++
    [("name", Json.ofText e.name)] ++
    (if e.detail.isEmpty then [] else [("detail", Json.ofText e.detail)]) ++
    (if e.extra.isEmpty then []
      else [("extra", .object (e.sortedExtra.map fun x => (Json.escape x.1, Json.ofText x.2)))]))

def toText (e : Event) : Bytes :=
  e.time.clock 3 ++ utf8 " [" ++ utf8 e.scope.label ++ utf8 "] " ++
    (if e.parent == 0 then [] else utf8 "  ") ++ utf8 e.kind.sign ++ e.name ++
    (if e.span == 0 then [] else utf8 " #" ++ Bytes.ofNat e.span) ++
    (if e.detail.isEmpty then [] else utf8 " (" ++ e.detail ++ utf8 ")") ++
    (if e.extra.isEmpty then []
      else utf8 " \x7b" ++ Bytes.join (utf8 ", ") (e.sortedExtra.map fun x => x.1 ++ utf8 "=" ++ x.2) ++
        utf8 "\x7d")

def line (f : Format) (e : Event) : Bytes :=
  (match f with
    | .json => e.toJson.compact
    | _ => e.toText) ++ [Bytes.lf]

end Event

end Colloquy.Trace
