import Colloquy.Text.Bytes

/-! # Code fences

Text shown as code between two fences of backticks. The fences are longer than every run of backticks
inside, so that the text cannot close them.
-/

namespace Colloquy.Fence

def tick : UInt8 := 0x60

/-- The longest run of backticks, where `run` backticks stand before the text. -/
def longestFrom (run : Nat) : Bytes → Nat
  | [] => run
  | b :: rest => if b == tick then longestFrom (run + 1) rest else max run (longestFrom 0 rest)

def longest (t : Bytes) : Nat := longestFrom 0 t

def length (t : Bytes) : Nat := if longest t ≥ 3 then longest t + 1 else 3

/-- The text between fences, marked with its language. Line feeds at its end are dropped. -/
def wrap (t language : Bytes) : Bytes :=
  let fence := List.replicate (length t) tick
  fence ++ language ++ [Bytes.lf] ++ Bytes.trimEndWhile t (· == Bytes.lf) ++ [Bytes.lf] ++ fence

/-- The text in backticks, on one line. -/
def inline (t : Bytes) : Bytes := tick :: (t ++ [tick])

end Colloquy.Fence
