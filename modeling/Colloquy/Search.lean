/-! # Bisection

Binary search over the numbers below a bound. When the test fails up to some number and holds from it
on, the search finds that number.
-/

namespace Colloquy

/-- Halve the stretch from `lo` to `hi` until one number is left: the least one that passes the test,
    when the test is monotone. -/
def bisect (test : Nat → Bool) (lo hi : Nat) : Nat :=
  if lo < hi then
    let mid := (lo + hi) / 2
    if test mid then bisect test lo mid else bisect test (mid + 1) hi
  else lo
termination_by hi - lo

/-- The first element of an array that passes a test which, once passed, is passed by all later
    elements. -/
def firstPassing? {α : Type} (xs : Array α) (test : α → Bool) : Option α :=
  xs[bisect (fun i => (xs[i]?.map test).getD true) 0 xs.size]?

end Colloquy
