import Colloquy.Yaml.Fault

/-! # YAML tokens

The pieces into which a YAML text falls. Indentation shows as tokens too: a block collection opens and
closes like a bracketed one.
-/

namespace Colloquy.Yaml

/-- How a scalar is written. -/
inductive Style
  | plain
  | singleQuoted
  | doubleQuoted
  | literal
  | folded
  deriving Repr, DecidableEq, BEq, Inhabited

/-- What a token is. -/
inductive Token.Kind
  | streamStart
  | streamEnd
  | version (major minor : Nat)
  /-- A directive: tags with this handle begin with this text. -/
  | handle (name lead : Bytes)
  | documentStart
  | documentEnd
  | blockSequenceStart
  | blockMappingStart
  | blockEnd
  | flowSequenceStart
  | flowSequenceEnd
  | flowMappingStart
  | flowMappingEnd
  | blockEntry
  | flowEntry
  | key
  | value
  | alias (name : Bytes)
  | anchor (name : Bytes)
  | tag (handle suffix : Bytes)
  | scalar (value : Bytes) (style : Style)
  deriving Repr, DecidableEq

/-- A token and the places where it starts and stops. -/
structure Token where
  kind : Token.Kind
  start : Mark
  stop : Mark
  deriving Repr, DecidableEq

end Colloquy.Yaml
