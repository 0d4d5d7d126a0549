import Colloquy.Text.Bytes
import Colloquy.Word
import Mathlib.Data.List.Basic
import Mathlib.Data.List.TakeWhile

/-! # Byte strings

A byte divides a text into pieces: those between all its occurrences, or what lies before and behind the first.
Joining gives back the text that was divided, and dividing gives back the pieces that were joined. A number is
written in digits, which spell it and can be told from what follows them as long as that starts with no digit.
Texts are in the order of their bytes, and sorting puts them in it.
-/

namespace Colloquy

theorem total_append (ms ns : List Nat) : total (ms ++ ns) = total ms + total ns := by
  induction ms with
  | nil => exact (Nat.zero_add _).symm
  | cons m ms ih => rw [List.cons_append, total, total, ih, Nat.add_assoc]

theorem total_reverse (ns : List Nat) : total ns.reverse = total ns := by
  induction ns with
  | nil => rfl
  | cons n ns ih =>
      rw [List.reverse_cons, total_append, ih, total, Nat.add_comm]
      rfl

/-- Every 64-bit number but the greatest has a successor. -/
theorem toInt_add_one {n : Int64} (other : n ≠ Int64.maxValue) : (n + 1).toInt = n.toInt + 1 := by
  have one : (1 : Int64).toInt = 1 := rfl
  have least := n.le_toInt
  have below := Int64.lt_of_le_of_ne (Int64.le_iff_toInt_le.mpr n.toInt_le) other
  rw [Int64.lt_iff_toInt_lt, Int64.toInt_maxValue] at below
  rw [Int64.toInt_add, one]
  exact Int.bmod_eq_of_le (by omega) (by omega)

namespace Bytes

/-- What holds for the 256 bytes holds for every byte. -/
theorem forall_byte {p : UInt8 → Prop} (all : ∀ n : Fin 256, p (UInt8.ofFin n)) (b : UInt8) : p b :=
  all b.toFin

/-- A byte of a class is no byte outside it. -/
theorem ne_of_class {p : UInt8 → Bool} {b c : UInt8} (member : p b = true) (other : p c = false) : b ≠ c := by
  rintro rfl
  exact Bool.noConfusion (member.symm.trans other)

/-! ## Pieces -/

theorem splitOn_ne_nil (t : Bytes) (sep : UInt8) : splitOn t sep ≠ [] := by
  fun_cases splitOn t sep <;> simp

theorem join_cons (sep piece : Bytes) {pieces : List Bytes} (more : pieces ≠ []) :
    join sep (piece :: pieces) = piece ++ sep ++ join sep pieces :=
  join.eq_3 sep piece pieces more

theorem join_splitOn (t : Bytes) (sep : UInt8) : join [sep] (splitOn t sep) = t := by
  fun_induction splitOn t sep with
  | case1 => rfl
  | case2 b rest same ih =>
      rw [join_cons _ _ (splitOn_ne_nil rest sep), ih, eq_of_beq same]
      rfl
  | case3 b rest _ none => exact absurd none (splitOn_ne_nil rest sep)
  | case4 b rest _ piece pieces split ih =>
      rw [split] at ih
      rw [← ih]
      cases pieces with
      | nil => rfl
      | cons next pieces => rfl

theorem splitOn_append {sep : UInt8} {head : Bytes} (free : sep ∉ head) (t : Bytes) :
    ∃ piece pieces, splitOn t sep = piece :: pieces ∧ splitOn (head ++ t) sep = (head ++ piece) :: pieces := by
  induction head with
  | nil =>
      obtain ⟨piece, pieces, split⟩ := List.exists_cons_of_ne_nil (splitOn_ne_nil t sep)
      exact ⟨piece, pieces, split, split⟩
  | cons b head ih =>
      obtain ⟨other, free⟩ : sep ≠ b ∧ sep ∉ head := by simpa using free
      obtain ⟨piece, pieces, split, split'⟩ := ih free
      refine ⟨piece, pieces, split, ?_⟩
      rw [List.cons_append, splitOn, if_neg (by simpa using other.symm), split']
      rfl

/-- Pieces that do not hold the separator are found again. -/
theorem splitOn_join {sep : UInt8} {pieces : List Bytes} (some : pieces ≠ []) (free : ∀ p ∈ pieces, sep ∉ p) :
    splitOn (join [sep] pieces) sep = pieces := by
  induction pieces with
  | nil => exact absurd rfl some
  | cons piece pieces ih =>
      have here := free piece List.mem_cons_self
      cases pieces with
      | nil =>
          obtain ⟨last, rest, split, joined⟩ := splitOn_append here []
          obtain ⟨rfl, rfl⟩ := List.cons.inj split
          simpa [join] using joined
      | cons next pieces =>
          have behind := ih (by simp) fun p member => free p (List.mem_cons_of_mem _ member)
          rw [join_cons _ _ (by simp), List.append_assoc]
          obtain ⟨last, rest, split, joined⟩ := splitOn_append here ([sep] ++ join [sep] (next :: pieces))
          rw [List.singleton_append, splitOn, if_pos (beq_self_eq_true sep), behind] at split
          obtain ⟨rfl, rfl⟩ := List.cons.inj split
          rw [joined, List.append_nil]

theorem not_mem_of_mem_splitOn {t : Bytes} {sep : UInt8} : ∀ piece ∈ splitOn t sep, sep ∉ piece := by
  fun_induction splitOn t sep with
  | case1 => simp
  | case2 b rest same ih => simpa using ih
  | case3 b rest _ none => exact absurd none (splitOn_ne_nil rest sep)
  | case4 b rest other piece pieces split ih =>
      rw [split] at ih
      obtain ⟨first, others⟩ := List.forall_mem_cons.mp ih
      refine List.forall_mem_cons.mpr ⟨?_, others⟩
      simpa [first] using fun same : sep = b => other (beq_iff_eq.mpr same.symm)

theorem splitOn_append_sep (s : Bytes) (sep : UInt8) (t : Bytes) :
    splitOn (s ++ sep :: t) sep = splitOn s sep ++ splitOn t sep := by
  induction s with
  | nil =>
      change splitOn (sep :: t) sep = [] :: splitOn t sep
      rw [splitOn, if_pos (beq_self_eq_true sep)]
  | cons b s ih =>
      rw [List.cons_append, splitOn, splitOn, ih]
      split
      · rfl
      · cases split : splitOn s sep with
        | nil => exact absurd split (splitOn_ne_nil s sep)
        | cons piece pieces => rfl

theorem mem_iff_mem_splitOn {t : Bytes} {sep b : UInt8} (other : b ≠ sep) :
    b ∈ t ↔ ∃ piece ∈ splitOn t sep, b ∈ piece := by
  fun_induction splitOn t sep with
  | case1 => simp
  | case2 c rest same ih => simp [ih, eq_of_beq same, other]
  | case3 c rest _ none => exact absurd none (splitOn_ne_nil rest sep)
  | case4 c rest _ piece pieces split ih =>
      rw [split] at ih
      simp only [List.mem_cons, ih, exists_eq_or_imp, or_assoc]

/-- The last piece of one text and the first piece of the next come together. -/
theorem splitOn_glue (sep : UInt8) (s t : Bytes) : ∃ before last first behind,
    splitOn s sep = before ++ [last] ∧ splitOn t sep = first :: behind ∧
      splitOn (s ++ t) sep = before ++ (last ++ first) :: behind := by
  induction s with
  | nil =>
      obtain ⟨first, behind, split⟩ := List.exists_cons_of_ne_nil (splitOn_ne_nil t sep)
      exact ⟨[], [], first, behind, rfl, split, split⟩
  | cons b s ih =>
      obtain ⟨before, last, first, behind, front, split, whole⟩ := ih
      rw [List.cons_append, splitOn, splitOn, front, whole]
      by_cases same : (b == sep) = true
      · exact ⟨[] :: before, last, first, behind, by rw [if_pos same]; rfl, split, by rw [if_pos same]; rfl⟩
      · rw [if_neg same, if_neg same]
        cases before with
        | nil => exact ⟨[], b :: last, first, behind, rfl, split, rfl⟩
        | cons piece before => exact ⟨(b :: piece) :: before, last, first, behind, rfl, split, rfl⟩

theorem splitOn_of_not_mem {t : Bytes} {sep : UInt8} (free : sep ∉ t) : splitOn t sep = [t] := by
  obtain ⟨last, rest, split, whole⟩ := splitOn_append free []
  obtain ⟨rfl, rfl⟩ := List.cons.inj split
  simpa using whole

/-- A text around the last of its separators. -/
theorem exists_last {t : Bytes} {sep : UInt8} (member : sep ∈ t) :
    ∃ front last, t = front ++ sep :: last ∧ sep ∉ last := by
  obtain ⟨last, front, split, free⟩ := List.eq_append_cons_of_mem (List.mem_reverse.mpr member)
  refine ⟨front.reverse, last.reverse, ?_, by simpa using free⟩
  rw [← List.reverse_reverse t, split]
  simp

/-- What stands in front of the first `mark`. -/
theorem takeWhile_mark {u : Bytes} {mark : UInt8} (free : mark ∉ u) (v : Bytes) :
    (u ++ mark :: v).takeWhile (· != mark) = u := by
  rw [List.takeWhile_append_of_pos fun b member => ?_, List.takeWhile_cons_of_neg (by simp), List.append_nil]
  simpa using fun same : b = mark => free (same ▸ member)

theorem takeWhile_of_not_mem {t : Bytes} {mark : UInt8} (free : mark ∉ t) : t.takeWhile (· != mark) = t :=
  List.takeWhile_eq_self_iff.mpr fun b member => by simpa using fun same : b = mark => free (same ▸ member)

theorem indexOf?_eq_none {t : Bytes} {b : UInt8} (free : b ∉ t) : indexOf? t b = none := by
  refine List.findIdx?_eq_none_iff.mpr fun c member => ?_
  exact beq_eq_false_iff_ne.mpr fun same => free (same ▸ member)

theorem indexOf?_first {head : Bytes} {b : UInt8} (free : b ∉ head) (rest : Bytes) :
    indexOf? (head ++ b :: rest) b = some head.length := by
  have absent : head.findIdx? (· == b) = none := indexOf?_eq_none free
  rw [indexOf?, List.findIdx?_append, absent, List.findIdx?_cons, beq_self_eq_true]
  simp

/-- What occurs in a text is a part of it. -/
theorem infix_of_contains {t part : Bytes} (held : contains t part = true) : part <:+: t := by
  induction t with
  | nil =>
      rw [contains, find?] at held
      split at held
      · rename_i none
        exact List.isEmpty_iff.mp none ▸ List.infix_rfl
      · cases held
  | cons b t ih =>
      rw [contains, find?] at held
      split at held
      · rename_i starts
        exact (List.isPrefixOf_iff_prefix.mp starts).isInfix
      · rw [Option.isSome_map] at held
        exact (ih held).trans (List.suffix_cons b t).isInfix

theorem contains_of_infix {t part : Bytes} (inside : part <:+: t) : contains t part = true := by
  induction t with
  | nil =>
      obtain rfl := List.infix_nil.mp inside
      rfl
  | cons b t ih =>
      rw [contains, find?]
      split
      · rfl
      · rename_i other
        rw [Option.isSome_map]
        cases List.infix_cons_iff.mp inside with
        | inl starts => exact absurd (List.isPrefixOf_iff_prefix.mpr starts) other
        | inr behind => exact ih behind

theorem cut?_eq_none {t : Bytes} {sep : UInt8} (free : sep ∉ t) : cut? t sep = none := by
  rw [cut?, indexOf?_eq_none free, Option.map_none]

theorem cut?_append {head : Bytes} {sep : UInt8} (free : sep ∉ head) (rest : Bytes) :
    cut? (head ++ sep :: rest) sep = some (head, rest) := by
  rw [cut?, indexOf?_first free]
  simp

/-- A text around one of its bytes. -/
theorem exists_split {t : Bytes} {i : Nat} {b : UInt8} (here : t[i]? = some b) :
    ∃ front behind, t = front ++ b :: behind ∧ front.length = i := by
  obtain ⟨inside, same⟩ := List.getElem?_eq_some_iff.mp here
  refine ⟨t.take i, t.drop (i + 1), ?_, List.length_take_of_le (Nat.le_of_lt inside)⟩
  rw [← same, ← List.drop_eq_getElem_cons, List.take_append_drop]

/-! ## Ends -/

theorem trimEndWhile_concat {p : UInt8 → Bool} {b : UInt8} (dropped : p b = true) (t : Bytes) :
    trimEndWhile (t ++ [b]) p = trimEndWhile t p := by
  rw [trimEndWhile, List.reverse_concat, List.dropWhile_cons_of_pos dropped, trimEndWhile]

theorem trimEndWhile_prefix (t : Bytes) (p : UInt8 → Bool) : trimEndWhile t p <+: t := by
  have suffix := List.reverse_prefix.mpr (List.dropWhile_suffix (l := t.reverse) p)
  rwa [List.reverse_reverse] at suffix

theorem trimEndWhile_eq_self {p : UInt8 → Bool} {t : Bytes} (kept : ∀ b ∈ t, p b = false) :
    trimEndWhile t p = t := by
  rw [trimEndWhile]
  cases last : t.reverse with
  | nil => simpa using last.symm
  | cons b rest =>
      have member : b ∈ t := List.mem_reverse.mp (last ▸ List.mem_cons_self)
      rw [List.dropWhile_cons_of_neg (by simp [kept b member]), ← last, List.reverse_reverse]

/-! ## Digits -/

theorem toNat_digit {n : Nat} {c : Char} (member : c ∈ Nat.toDigits 10 n) :
    c.toNat.toUInt8.toNat = c.toNat ∧ 48 ≤ c.toNat ∧ c.toNat ≤ 57 := by
  have digit := Nat.isDigit_of_mem_toDigits (by decide) (by decide) member
  simp only [Char.isDigit, Bool.and_eq_true, decide_eq_true_eq, UInt32.le_iff_toNat_le] at digit
  have bounds : 48 ≤ c.toNat ∧ c.toNat ≤ 57 := digit
  exact ⟨UInt8.toNat_ofNat_of_lt' (Nat.lt_of_le_of_lt bounds.2 (by decide)), bounds⟩

theorem isDigit_of_mem_ofNat {n : Nat} {b : UInt8} (member : b ∈ ofNat n) : isDigit b = true := by
  obtain ⟨c, inside, rfl⟩ := List.mem_map.mp member
  obtain ⟨same, low, high⟩ := toNat_digit inside
  simp [isDigit, UInt8.le_iff_toNat_le, same, low, high]

theorem toNat?_ofNat (n : Nat) : toNat? (ofNat n) = some n := by
  have some : (ofNat n).isEmpty = false := by simp [ofNat, Nat.toDigits_ne_nil]
  have digits : (ofNat n).all isDigit = true := List.all_eq_true.mpr fun b => isDigit_of_mem_ofNat
  have value : (ofNat n).foldl (fun n b => n * 10 + (b.toNat - 0x30)) 0 = n := by
    refine Eq.trans ?_ Nat.ofDigitChars_ten_toDigits
    rw [ofNat, List.foldl_map, Nat.ofDigitChars]
    refine List.foldl_ext _ _ 0 fun sum c member => ?_
    rw [(toNat_digit member).1, Nat.mul_comm]
    rfl
  simp [toNat?, some, digits, value]

/-- A number and what follows it can be told apart when that starts with no digit. -/
theorem ofNat_append_inj {a b : Nat} {mark : UInt8} {x y : Bytes} (other : isDigit mark = false)
    (same : ofNat a ++ mark :: x = ofNat b ++ mark :: y) : a = b ∧ x = y := by
  have digits : ∀ (n : Nat) (t : Bytes), (ofNat n ++ mark :: t).takeWhile isDigit = ofNat n := by
    intro n t
    rw [List.takeWhile_append_of_pos fun b => isDigit_of_mem_ofNat, List.takeWhile_cons_of_neg (by simp [other]),
      List.append_nil]
  have written : ofNat a = ofNat b := by rw [← digits a x, same, digits]
  obtain rfl : a = b := by
    have read := congrArg toNat? written
    rw [toNat?_ofNat, toNat?_ofNat] at read
    exact Option.some.inj read
  exact ⟨rfl, (List.cons.inj (List.append_cancel_left same)).2⟩

/-! ## Order -/

/-- The order of texts is the lexicographic order of their bytes. -/
theorem le_iff {s t : Bytes} : le s t = true ↔ s ≤ t := by
  fun_induction le s t with
  | case1 t => simp
  | case2 a s => simp
  | case3 a s b t ih =>
      rw [List.cons_le_cons_iff]
      simp [ih]

theorem mem_sorted {t : Bytes} {ts : List Bytes} : t ∈ sorted ts ↔ t ∈ ts := List.mem_mergeSort

theorem sorted_eq_nil_iff {ts : List Bytes} : sorted ts = [] ↔ ts = [] := by
  rw [← List.length_eq_zero_iff, sorted, List.length_mergeSort, List.length_eq_zero_iff]

/-- Texts that differ stand in strictly increasing order. -/
theorem pairwise_sorted {ts : List Bytes} (once : ts.Nodup) : (sorted ts).Pairwise (· < ·) := by
  have ordered : (sorted ts).Pairwise fun s t => le s t = true := by
    refine List.pairwise_mergeSort (fun a b c first second => ?_) (fun a b => ?_) ts
    · exact le_iff.mpr (List.le_trans (le_iff.mp first) (le_iff.mp second))
    · rw [Bool.or_eq_true, le_iff, le_iff]
      exact List.le_total a b
  have differ : (sorted ts).Nodup := (List.mergeSort_perm ts le).nodup_iff.mpr once
  refine (ordered.and differ).imp fun both => ?_
  by_contra later
  exact both.2 (List.le_antisymm (le_iff.mp both.1) later)

end Bytes

end Colloquy
