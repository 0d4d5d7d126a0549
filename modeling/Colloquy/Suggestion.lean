import Colloquy.Text.Rune

/-! # Suggestions

Known names ranked by edit distance to a name that was typed. One edit inserts, deletes or replaces
one rune.
-/

namespace Colloquy.Suggestion

/-- The next row of the distance table: `left` is the entry just written, `diagonal` the one above it,
    and `above` what is left of the previous row. -/
def nextRow (c : Nat) (left diagonal : Nat) : List Nat → List Nat → List Nat
  | d :: ds, up :: above =>
    let cost := if c == d then diagonal else 1 + min diagonal (min left up)
    cost :: nextRow c cost up ds above
  | _, _ => []

/-- Walk the runes of the first text, one row of the table each. -/
def rows (b : List Nat) (row : List Nat) : List Nat → List Nat
  | [] => row
  | c :: rest =>
    match row with
    | [] => rows b [] rest
    | first :: above => rows b ((first + 1) :: nextRow c (first + 1) first b above) rest

def distance (a b : Bytes) : Nat :=
  let bs := b.codes
  ((rows bs (List.range (bs.length + 1)) a.codes).getLast?).getD 0

/-- The greatest distance worth suggesting: half the length of the typed name, at least two. -/
def threshold (typed : Bytes) : Nat := max 2 ((typed.runes.length + 1) / 2)

/-- The candidates within `limit` edits of the typed name, nearest first. Equal distances keep the
    order of the candidates, and the typed name itself is no suggestion. -/
def near (candidates : List Bytes) (typed : Bytes) (limit : Int) : List (Bytes × Nat) :=
  ((candidates.map fun c => (c, distance c typed)).filter fun m => m.2 != 0 && (m.2 : Int) ≤ limit)
    |>.mergeSort fun a b => a.2 ≤ b.2

end Colloquy.Suggestion
