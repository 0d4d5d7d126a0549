import Colloquy.Text.Rune

/-! # White space

The Unicode property `White_Space`, and trimming by it. An undecodable byte is never white space.
-/

namespace Colloquy

/-- The code points with the Unicode property `White_Space`. -/
def isWhiteSpace (code : Nat) : Bool :=
  (0x09 ≤ code && code ≤ 0x0D) || code == 0x20 || code == 0x85 || code == 0xA0 || code == 0x1680 ||
  (0x2000 ≤ code && code ≤ 0x200A) || code == 0x2028 || code == 0x2029 || code == 0x202F ||
  code == 0x205F || code == 0x3000

namespace Bytes

/-- Whether the text holds nothing but white space. -/
def isBlank (t : Bytes) : Bool := (runes t).all fun r => isWhiteSpace r.code

/-- The text without the white space at its end. -/
def trimEnd (t : Bytes) : Bytes :=
  t.take (widthOf ((runes t).reverse.dropWhile fun r => isWhiteSpace r.code))

/-- The text without the white space at its start. -/
def trimStart (t : Bytes) : Bytes :=
  t.drop (widthOf ((runes t).takeWhile fun r => isWhiteSpace r.code))

/-- The text without the white space around it. -/
def trim (t : Bytes) : Bytes := trimEnd (trimStart t)

end Bytes

end Colloquy
