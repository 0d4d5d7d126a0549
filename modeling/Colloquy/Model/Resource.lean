import Colloquy.Json.Decode
import Colloquy.Text.Decimal
import Colloquy.Time.Written

/-! # Model resources

A page of a list with resource names: an object that holds descriptions of models and the token of the
next page. Only the names are used, but a description with a part of the wrong kind cannot be read.
-/

namespace Colloquy.Resource

/-- The value of a member with exactly this name; the last one counts, and `null` is no value. -/
def member? (members : List (Bytes × Json)) (name : String) : Option Json :=
  match members.reverse.find? fun m => Json.unescape m.1 == utf8 name with
  | some (_, .null) => none
  | some (_, value) => some value
  | none => none

/-- A text that may be missing. -/
def optionalText : Option Json → Option Bytes
  | none => some []
  | some j => Json.decodeText [] j

/-- What kind of value a part of a description has. -/
inductive Kind
  | text
  /-- A whole number of 32 bits, however it is written. -/
  | count
  | moment
  | texts
  deriving Repr, DecidableEq

/-- Whether a value is a text or `null`. -/
def isText : Json → Bool
  | .string _ => true
  | .null => true
  | _ => false

def Kind.admits : Kind → Json → Bool
  | .text, j => isText j
  | .count, .number literal =>
    (match (Decimal.ofLiteral literal).whole? with
      | some n => n < (if literal.head? == some 0x2D then twoTo 31 + 1 else twoTo 31)
      | none => false)
  | .moment, .string literal => Written.isMoment (Json.unescape literal)
  | .texts, .array items => items.all isText
  | _, _ => false

def parts : List (String × Kind) :=
  [("name", .text), ("displayName", .text), ("description", .text), ("version", .text), ("baseModel", .text),
    ("createTime", .moment), ("updateTime", .moment), ("inputTokenLimit", .count), ("outputTokenLimit", .count),
    ("supportedGenerationMethods", .texts)]

def modelName? : Json → Option Bytes
  | .object members =>
    if parts.all fun p => ((member? members p.1).map p.2.admits).getD true then
      (optionalText (member? members "name")).map fun name => Bytes.dropHead name (utf8 "models/")
    else none
  | _ => none

mutual

def hasDoubles : Json → Bool
  | .number literal => (Decimal.ofLiteral literal).fitsDouble
  | .array items => haveDoubles items
  | .object members => membersHaveDoubles members
  | _ => true

def haveDoubles : List Json → Bool
  | [] => true
  | item :: items => hasDoubles item && haveDoubles items

def membersHaveDoubles : List (Bytes × Json) → Bool
  | [] => true
  | (_, value) :: members => hasDoubles value && membersHaveDoubles members

end

def listNames : List String := ["models", "tunedModels", "publisherModels"]

/-- The names on a page, and the token of the next page. An empty body is an empty page. -/
def page? (body : Bytes) : Option (List Bytes × Bytes) :=
  if body.isEmpty then some ([], [])
  else match Json.parse? body with
    | some (.object members) => do
      if !membersHaveDoubles members then none
      let items ← match listNames.findSome? (member? members) with
        | some (.array items) => some items
        | some _ => none
        | none => some []
      let names ← items.mapM modelName?
      let token ← optionalText (member? members "nextPageToken")
      return (names, token)
    | _ => none

end Colloquy.Resource
