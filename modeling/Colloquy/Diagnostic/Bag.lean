import Colloquy.Diagnostic.Basic

/-! # Bags of diagnostics

A collection with room for a limited number of diagnostics; what does not fit is dropped. A limit of
zero or less is none.
-/

namespace Colloquy

/-- Diagnostics in the order in which they were added. -/
structure Bag where
  items : List Diagnostic
  limit : Int
  deriving Repr, DecidableEq

namespace Bag

/-- An empty bag. -/
def empty (limit : Int) : Bag := ⟨[], limit⟩

/-- Whether nothing more fits. -/
def isFull (b : Bag) : Bool := 0 < b.limit && b.limit ≤ b.items.length

/-- Add a diagnostic if it fits; whether it did. -/
def add (b : Bag) (d : Diagnostic) : Bool × Bag :=
  if b.isFull then (false, b) else (true, { b with items := b.items ++ [d] })

def extend (b : Bag) : List Diagnostic → Bag
  | [] => b
  | d :: rest => if b.isFull then b else extend (b.add d).2 rest

def hasErrors (b : Bag) : Bool := b.items.any Diagnostic.isError

/-- The diagnostics whose key is not among `seen` or that of an earlier one. -/
def firstOfEach (seen : List Bytes) : List Diagnostic → List Diagnostic
  | [] => []
  | d :: rest =>
    if seen.any (· == d.key) then firstOfEach seen rest else d :: firstOfEach (d.key :: seen) rest

/-- Keep the first of the diagnostics that share a key. -/
def dedup (b : Bag) : Bag := { b with items := firstOfEach [] b.items }

/-- Put the diagnostics in order; those that are alike keep their order. -/
def sort (b : Bag) : Bag := { b with items := b.items.mergeSort Diagnostic.le }

/-- The diagnostics without repetitions, in order. -/
def finish (b : Bag) : List Diagnostic := b.dedup.sort.items

end Bag

end Colloquy
