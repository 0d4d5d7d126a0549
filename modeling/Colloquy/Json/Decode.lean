import Colloquy.Json.Parse
import Colloquy.Word

/-! # Decoding JSON into records

How messages and settings are read from JSON. A member's name matches a field's name in any case;
members with unknown names are ignored; `null` leaves a plain field as it is and clears an optional
one; a repeated member decodes over the value that the earlier one left, and a repeated list item by item.
Whole numbers must be written as whole numbers.
-/

namespace Colloquy.Json

/-- A field name with its case removed: ASCII letters, and the two other letters whose capital or small
    form is an ASCII letter. -/
def foldName (t : Bytes) : Bytes :=
  t.runes.flatMap fun r =>
    if r.code == 0x17F then [0x53]
    else if r.code == 0x212A then [0x4B]
    else if 0x61 ≤ r.code && r.code ≤ 0x7A then [(r.code - 32).toUInt8]
    else Rune.encode r.code

/-- Whether a member's literal name means the field `field`. -/
def isField (literal : Bytes) (field : String) : Bool :=
  foldName (unescape literal) == foldName (utf8 field)

/-- Decode an object over `current`: `set` decodes one member. Anything else than an object fails,
    except `null`, which changes nothing. -/
def decodeObject {α : Type} (set : α → Bytes → Json → Option α) (current : α) : Json → Option α
  | .null => some current
  | .object members => members.foldlM (fun acc m => set acc m.1 m.2) current
  | _ => none

/-- Decode an object over `current` by its fields: each has a name and decodes its member. -/
def decodeRecord {α : Type} (fields : List (String × (α → Json → Option α))) (current : α) (j : Json) : Option α :=
  decodeObject (fun acc name value =>
    match fields.find? fun f => isField name f.1 with
    | some f => f.2 acc value
    | none => some acc) current j

/-- A list as decoding leaves it: its items, and behind them what an earlier and longer list has left. A
    later list decodes over both, place by place. -/
structure Slots (α : Type) where
  items : List α := []
  left : List α := []
  deriving Repr, DecidableEq

/-- A list with nothing left behind it. -/
instance {α : Type} : Coe (List α) (Slots α) := ⟨fun items => ⟨items, []⟩⟩

/-- Decode items over earlier ones, place by place, and over `zero` where there are none. Earlier ones
    without a place are left. -/
def decodeItems {α : Type} (decode : α → Json → Option α) (zero : α) : List α → List Json → Option (Slots α)
  | earlier, [] => some ⟨[], earlier⟩
  | earlier, item :: items => do
    let value ← decode (earlier.head?.getD zero) item
    let rest ← decodeItems decode zero earlier.tail items
    return ⟨value :: rest.items, rest.left⟩

/-- Decode an array over an earlier one. The empty array and `null` leave nothing of it. -/
def decodeArray {α : Type} (decode : α → Json → Option α) (zero : α) (current : Slots α) :
    Json → Option (Slots α)
  | .null => some {}
  | .array [] => some {}
  | .array items => decodeItems decode zero (current.items ++ current.left) items
  | _ => none

/-- Decode an optional value over an earlier one; `null` is none. -/
def decodeOption {α : Type} (decode : α → Json → Option α) (zero : α) (current : Option α) :
    Json → Option (Option α)
  | .null => some none
  | j => (decode (current.getD zero) j).map some

def decodeText (current : Bytes) : Json → Option Bytes
  | .null => some current
  | .string literal => some (unescape literal)
  | _ => none

def decodeBool (current : Bool) : Json → Option Bool
  | .null => some current
  | .bool b => some b
  | _ => none

def integer? (literal : Bytes) : Option Int :=
  match literal with
  | 0x2D :: digits => (Bytes.toNat? digits).map fun n => -(n : Int)
  | digits => (Bytes.toNat? digits).map fun n => (n : Int)

def decodeInt (current : Int) : Json → Option Int
  | .null => some current
  | .number literal =>
    match integer? literal with
    | some n => if fitsSigned n then some n else none
    | none => none
  | _ => none

def decodeInt64 (current : Int64) (j : Json) : Option Int64 :=
  (decodeInt current.toInt j).map Int64.ofInt

end Colloquy.Json
