/-! # Words

Bounds of 64-bit words and powers of whole numbers.
-/

namespace Colloquy

/-- Two to the power of 64: how many words there are. -/
def wordCount : Nat := 18446744073709551616

/-- Two to the power of 63: the least number that is too large for a signed word. -/
def signedLimit : Nat := 9223372036854775808

def fitsSigned (n : Int) : Bool := -(signedLimit : Int) ≤ n && n < (signedLimit : Int)

def twoTo (n : Nat) : Nat := Nat.pow 2 n

def tenTo (n : Nat) : Nat := Nat.pow 10 n

def total : List Nat → Nat
  | [] => 0
  | n :: rest => n + total rest

end Colloquy
