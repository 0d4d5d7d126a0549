import Colloquy.Proofs.Document.Stretch
import Mathlib.Order.Bounds.Defs

/-! # Where a bracket is closed

The search for the bracket that closes another one reads byte by byte and counts. What it finds can be said without a
search: the first closing bracket behind which as many brackets have been closed as opened, where a byte behind a
backslash that is not itself behind one is text. So nothing behind the part that is searched has a say in it, and in a
longer part the same bracket is found.
-/

namespace Colloquy.Document.Bracket

/-- Whether the byte at an offset is behind a backslash that has a meaning, reading from `start`. -/
def isEscaped (text : Bytes) (start : Nat) : Nat → Bool
  | 0 => false
  | k + 1 => start ≤ k && text[k]? == some backslash && !isEscaped text start k

/-- How often `b` stands unescaped from `start` up to but not including `stop`. -/
def tally (b : UInt8) (text : Bytes) (start stop : Nat) : Nat :=
  (List.range' start (stop - start)).countP fun k => text[k]? == some b && !isEscaped text start k

/-- An unescaped closing bracket stands at an offset, and from `start` up to it brackets are closed as often as opened. -/
structure Balances (left right : UInt8) (text : Bytes) (start k : Nat) : Prop where
  behind : start ≤ k
  bracket : text[k]? = some right
  plain : isEscaped text start k = false
  even : tally left text start (k + 1) = tally right text start (k + 1)

instance (left right : UInt8) (text : Bytes) (start k : Nat) : Decidable (Balances left right text start k) :=
  decidable_of_iff (start ≤ k ∧ text[k]? = some right ∧ isEscaped text start k = false ∧
      tally left text start (k + 1) = tally right text start (k + 1))
    ⟨fun ⟨behind, bracket, plain, even⟩ => ⟨behind, bracket, plain, even⟩, fun b => ⟨b.1, b.2, b.3, b.4⟩⟩

/-- The offset of the bracket that closes the one at `start`, in the part of a text that ends at `stop`. -/
def closingIn? (left right : UInt8) (text : Bytes) (start stop : Nat) : Option Nat :=
  (closing? left right (Bytes.slice text start stop)).map (· + start)

variable {left right b : UInt8} {text : Bytes} {start pos : Nat}

theorem isEscaped_start (text : Bytes) (start : Nat) : isEscaped text start start = false := by
  cases start with
  | zero => rfl
  | succ k =>
      have before : decide (k + 1 ≤ k) = false := by simp
      rw [isEscaped, before, Bool.false_and, Bool.false_and]

theorem isEscaped_succ (le : start ≤ pos) (byte : text[pos]? = some b) :
    isEscaped text start (pos + 1) = (b == backslash && !isEscaped text start pos) := by
  simp [isEscaped, le, byte]

theorem tally_start (b : UInt8) (text : Bytes) (start : Nat) : tally b text start start = 0 := by
  simp [tally]

theorem tally_succ (x : UInt8) (le : start ≤ pos) (byte : text[pos]? = some b) :
    tally x text start (pos + 1) =
      tally x text start pos + if b = x ∧ isEscaped text start pos = false then 1 else 0 := by
  have one_more : pos + 1 - start = pos - start + 1 := by omega
  have last : start + (pos - start) = pos := by omega
  rw [tally, one_more, List.range'_1_concat, List.countP_append, List.countP_singleton, last, byte, tally]
  congr 1
  simp

theorem read_cons {rest : Bytes} (placed : text.drop pos = b :: rest) :
    text[pos]? = some b ∧ text.drop (pos + 1) = rest := by
  constructor
  · rw [← List.head?_drop, placed, List.head?_cons]
  · rw [← List.tail_drop, placed, List.tail_cons]

theorem find?_passed {rest : Bytes} (passed : ¬ Balances left right text start pos) :
    ((List.range' pos (b :: rest).length).find? fun k => decide (Balances left right text start k)) =
      (List.range' (pos + 1) rest.length).find? fun k => decide (Balances left right text start k) := by
  rw [List.length_cons, List.range'_succ, List.find?_cons_of_neg (by simpa using passed)]

/-- What a search that has come to `pos` knows: whether the next byte is escaped, and how many brackets are open. -/
structure Counted (left right : UInt8) (text : Bytes) (start pos : Nat) (escaped : Bool) (depth : Int) : Prop where
  le : start ≤ pos
  known : isEscaped text start pos = escaped
  opened : depth = (tally left text start pos : Int) - tally right text start pos

namespace Counted

variable {escaped : Bool} {depth : Int}

theorem opening (left right : UInt8) (text : Bytes) (start : Nat) : Counted left right text start start false 0 :=
  ⟨Nat.le_refl start, isEscaped_start text start, by rw [tally_start, tally_start, Int.sub_self]⟩

/-- A byte that is not escaped may escape the next one, open a bracket or close one. -/
theorem next (counted : Counted left right text start pos escaped depth) (byte : text[pos]? = some b) :
    Counted left right text start (pos + 1) (b == backslash && !escaped)
      (depth + (if b = left ∧ escaped = false then 1 else 0) - (if b = right ∧ escaped = false then 1 else 0)) := by
  obtain ⟨le, rfl, rfl⟩ := counted
  refine ⟨Nat.le_succ_of_le le, isEscaped_succ le byte, ?_⟩
  rw [tally_succ left le byte, tally_succ right le byte]
  split_ifs <;> omega

/-- The brackets balance behind an unescaped closing bracket, if one is open in front of it. -/
theorem balances_iff (counted : Counted left right text start pos escaped depth) (differ : left ≠ right)
    (byte : text[pos]? = some b) :
    Balances left right text start pos ↔ escaped = false ∧ b = right ∧ depth = 1 := by
  obtain ⟨le, rfl, rfl⟩ := counted
  have opens := tally_succ left le byte
  have closes := tally_succ right le byte
  constructor
  · rintro ⟨-, bracket, plain, even⟩
    obtain rfl : b = right := Option.some.inj (byte.symm.trans bracket)
    simp only [plain, differ.symm, and_true, and_self, if_true, if_false] at opens closes
    exact ⟨plain, rfl, by omega⟩
  · rintro ⟨plain, rfl, one⟩
    simp only [plain, differ.symm, and_true, and_self, if_true, if_false] at opens closes
    exact ⟨le, byte, plain, by omega⟩

end Counted

/-- The search finds the first balancing bracket of what is left, if its counts are right. -/
theorem closingFrom_eq_find? (differ : left ≠ right) (leftMeans : left ≠ backslash) (rightMeans : right ≠ backslash)
    {escaped : Bool} {depth : Int} {rest tail : Bytes} (placed : text.drop pos = rest ++ tail)
    (counted : Counted left right text start pos escaped depth) :
    closingFrom left right escaped depth pos rest =
      (List.range' pos rest.length).find? fun k => decide (Balances left right text start k) := by
  fun_induction closingFrom left right escaped depth pos rest with
  | case1 => rfl
  | case2 depth pos b rest ih =>
      obtain ⟨byte, behind⟩ := read_cons placed
      have next := counted.next byte
      have passed : ¬ Balances left right text start pos := by simp [counted.balances_iff differ byte]
      rw [find?_passed passed]
      exact ih behind (by simpa using next)
  | case3 depth pos b rest escape ih =>
      obtain ⟨byte, behind⟩ := read_cons placed
      have next := counted.next byte
      obtain rfl := eq_of_beq escape
      have passed : ¬ Balances left right text start pos := by
        simp [counted.balances_iff differ byte, rightMeans.symm]
      rw [find?_passed passed]
      exact ih behind (by simpa [leftMeans.symm, rightMeans.symm] using next)
  | case4 depth pos b rest plain opens ih =>
      obtain ⟨byte, behind⟩ := read_cons placed
      have next := counted.next byte
      obtain rfl := eq_of_beq opens
      have passed : ¬ Balances b right text start pos := by simp [counted.balances_iff differ byte, differ]
      rw [find?_passed passed]
      exact ih behind (by simpa [differ, beq_false_of_ne leftMeans] using next)
  | case5 depth pos b rest plain other closes last =>
      obtain ⟨byte, -⟩ := read_cons placed
      obtain rfl := eq_of_beq closes
      have found : Balances left b text start pos :=
        (counted.balances_iff differ byte).mpr ⟨rfl, rfl, by simpa using last⟩
      rw [List.length_cons, List.range'_succ, List.find?_cons_of_pos (by simpa using found)]
  | case6 depth pos b rest plain other closes more ih =>
      obtain ⟨byte, behind⟩ := read_cons placed
      have next := counted.next byte
      obtain rfl := eq_of_beq closes
      have more : depth ≠ 1 := by simpa using more
      have passed : ¬ Balances left b text start pos := by simp [counted.balances_iff differ byte, more]
      rw [find?_passed passed]
      exact ih behind (by simpa [differ.symm, beq_false_of_ne rightMeans] using next)
  | case7 depth pos b rest plain other closes ih =>
      obtain ⟨byte, behind⟩ := read_cons placed
      have next := counted.next byte
      have other : b ≠ left := by simpa using other
      have closes : b ≠ right := by simpa using closes
      have passed : ¬ Balances left right text start pos := by simp [counted.balances_iff differ byte, closes]
      rw [find?_passed passed]
      exact ih behind (by simpa [eq_false_of_ne_true plain, other, closes] using next)

theorem closingIn?_eq_find? (differ : left ≠ right) (leftMeans : left ≠ backslash) (rightMeans : right ≠ backslash)
    (text : Bytes) (start stop : Nat) :
    closingIn? left right text start stop =
      (List.range' start (min (stop - start) (text.length - start))).find? fun k =>
        decide (Balances left right text start k) := by
  have moved : closingFrom left right false 0 start (Bytes.slice text start stop) =
      (closingFrom left right false 0 0 (Bytes.slice text start stop)).map (· + start) := by
    rw [← closingFrom_move, Nat.zero_add]
  have placed : text.drop start = Bytes.slice text start stop ++ (text.drop start).drop (stop - start) :=
    (List.take_append_drop (stop - start) (text.drop start)).symm
  have found := closingFrom_eq_find? differ leftMeans rightMeans placed (.opening left right text start)
  rw [closingIn?, closing?, ← moved, found, Bytes.slice, List.length_take, List.length_drop]

/-- A balancing bracket in the part is among the offsets that are searched. -/
theorem Balances.mem_range' {stop k : Nat} (balances : Balances left right text start k) (inside : k < stop) :
    k ∈ List.range' start (min (stop - start) (text.length - start)) := by
  obtain ⟨within, -⟩ := List.getElem?_eq_some_iff.mp balances.bracket
  have behind := balances.behind
  rw [List.mem_range'_1]
  omega

/-- Matching is exact: an offset is found exactly if it is the first one in the part, reading from the opening bracket,
where an unescaped closing bracket makes up for all opened ones, and none is found exactly if there is no such offset.
What stands behind the part does not matter, and in a longer part the same bracket is found. -/
theorem closes_at_first_balance (differ : left ≠ right) (leftMeans : left ≠ backslash) (rightMeans : right ≠ backslash)
    (text : Bytes) (start stop : Nat) :
    (∀ k, closingIn? left right text start stop = some k ↔
      IsLeast {k | Balances left right text start k ∧ k < stop} k) ∧
    (closingIn? left right text start stop = none ↔ ∀ k < stop, ¬ Balances left right text start k) ∧
    (∀ other : Bytes, other.take stop = text.take stop →
      closingIn? left right other start stop = closingIn? left right text start stop) ∧
    (∀ longer k, stop ≤ longer → closingIn? left right text start stop = some k →
      closingIn? left right text start longer = some k) := by
  have searched := closingIn?_eq_find? differ leftMeans rightMeans text start stop
  refine ⟨fun k => ?_, ?_, ?_, ?_⟩
  · rw [searched, List.find?_range'_eq_some, decide_eq_true_iff]
    constructor
    · rintro ⟨balances, among, first⟩
      have bounds := List.mem_range'_1.mp among
      refine ⟨⟨balances, by omega⟩, ?_⟩
      rintro j ⟨other, -⟩
      by_contra before
      simpa [other] using first j other.behind (Nat.lt_of_not_le before)
    · rintro ⟨⟨balances, inside⟩, least⟩
      refine ⟨balances, balances.mem_range' inside, fun j _ before => ?_⟩
      have passed : ¬ Balances left right text start j := fun other =>
        absurd (least ⟨other, Nat.lt_trans before inside⟩) (Nat.not_le_of_lt before)
      simpa using passed
  · rw [searched, List.find?_eq_none]
    constructor
    · intro none k inside balances
      exact none k (balances.mem_range' inside) (decide_eq_true balances)
    · intro none k among found
      have bounds := List.mem_range'_1.mp among
      exact none k (by omega) (of_decide_eq_true found)
  · intro other same
    rw [closingIn?, closingIn?, Bytes.slice, Bytes.slice, ← List.drop_take, ← List.drop_take, same]
  · intro longer k le found
    obtain ⟨close, closed, rfl⟩ := Option.map_eq_some_iff.mp found
    have size : longer - start = (stop - start) + (longer - start - (stop - start)) := by omega
    have same := closing?_append_of_some closed
      (((text.drop start).drop (stop - start)).take (longer - start - (stop - start)))
    rw [Bytes.slice, ← List.take_add, ← size] at same
    rw [closingIn?, Bytes.slice, same]
    rfl

/-- A nested pair, escaped brackets, and parts that end in front of the closing bracket and behind a backslash. -/
theorem closes_at_first_balance_nested :
    let text := utf8 "a[\\][b\\\\]c]\\]"
    (0x5B : UInt8) ≠ 0x5D ∧ (0x5B : UInt8) ≠ backslash ∧ (0x5D : UInt8) ≠ backslash ∧
      closingIn? 0x5B 0x5D text 1 12 = some 10 ∧ IsLeast {k | Balances 0x5B 0x5D text 1 k ∧ k < 12} 10 ∧
      closingIn? 0x5B 0x5D text 1 10 = none ∧ ∀ k < 10, ¬ Balances 0x5B 0x5D text 1 k := by
  intro text
  have differ : (0x5B : UInt8) ≠ 0x5D := by decide
  have leftMeans : (0x5B : UInt8) ≠ backslash := by decide
  have rightMeans : (0x5D : UInt8) ≠ backslash := by decide
  have exact := closes_at_first_balance differ leftMeans rightMeans text 1
  have found : closingIn? 0x5B 0x5D text 1 12 = some 10 := by decide
  have cut : closingIn? 0x5B 0x5D text 1 10 = none := by decide
  exact ⟨differ, leftMeans, rightMeans, found, ((exact 12).1 10).mp found, cut, (exact 10).2.1.mp cut⟩

end Colloquy.Document.Bracket
