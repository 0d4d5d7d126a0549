import Colloquy.Preview.Link
import Colloquy.Proofs.Text.Boundary
import Colloquy.Proofs.Text.Bytes
import Mathlib.Data.List.Infix

/-! # Excerpts of files

A preview shows a file up to a limit in bytes. The limit may cut a rune, and then bytes are dropped from the end until
what is left is valid UTF-8. A front of a text is valid only where no rune is cut, and from every offset the next such
place before it is at most three bytes away. So of a file of valid UTF-8 the cut rune is dropped and nothing else, and
what is left is never taken for something that is no text.
-/

namespace Colloquy.Preview

open Bytes (Boundary IsFloor)

/-- Bytes are dropped back to the last place where no rune is cut, if there are tries enough. -/
theorem dropBroken_take {t : Bytes} (valid : Bytes.isUtf8 t = true) {n m tries : Nat} (floor : IsFloor t n m)
    (inside : n ≤ t.length) (near : n ≤ m + tries) : dropBroken tries (t.take n) = t.take m := by
  have front := (Bytes.isUtf8_boundary valid floor.1.1).1
  have le : m ≤ n := floor.1.2
  induction tries generalizing n with
  | zero =>
      obtain rfl : n = m := Nat.le_antisymm near le
      rfl
  | succ tries ih =>
      rw [dropBroken]
      cases Nat.eq_or_lt_of_le le with
      | inl same =>
          subst same
          rw [if_pos (by simp [front])]
      | inr lt =>
          have cut : Bytes.isUtf8 (t.take n) = false := by
            apply Bool.eq_false_iff.mpr
            intro whole
            have boundary := Bytes.boundary_of_isUtf8_take inside whole
            exact absurd (floor.2 ⟨boundary, Nat.le_refl n⟩) (Nat.not_le.mpr lt)
          have filled : (t.take n).isEmpty = false := by
            rw [List.isEmpty_eq_false_iff, ← List.length_pos_iff, List.length_take_of_le inside]
            exact Nat.lt_of_le_of_lt (Nat.zero_le m) lt
          have dropped : (t.take n).dropLast = t.take (n - 1) := by
            rw [List.dropLast_eq_take, List.length_take_of_le inside, List.take_take,
              Nat.min_eq_left (Nat.sub_le n 1)]
          rw [if_neg (by simp [cut, filled]), dropped]
          apply ih
          · refine ⟨⟨floor.1.1, by omega⟩, ?_⟩
            rintro k ⟨boundary, before⟩
            exact floor.2 ⟨boundary, by omega⟩
          · omega
          · omega
          · omega

/-- The limit's successor is a word too unless the limit is the greatest. -/
theorem toNatClampNeg_add_one {limit : Int64} (pos : 1 ≤ limit) (below : limit < Int64.maxValue) :
    (limit + 1).toNatClampNeg = limit.toNatClampNeg + 1 := by
  have one : (1 : Int64).toInt = 1 := rfl
  rw [Int64.le_iff_toInt_le] at pos
  rw [← Int64.toNat_toInt, ← Int64.toNat_toInt, toInt_add_one (Int64.ne_of_lt below)]
  omega

/-- A fenced text ends with a backtick. -/
theorem getLast?_wrap (t language : Bytes) : (Fence.wrap t language).getLast? = some Fence.tick := by
  obtain ⟨k, long⟩ : ∃ k, Fence.length t = k + 1 := by
    unfold Fence.length
    split
    · exact ⟨_, rfl⟩
    · exact ⟨2, rfl⟩
  rw [Fence.wrap, long, List.getLast?_append_of_ne_nil _ (by simp)]
  simp [List.getLast?_replicate]

/-- The note on what is left out stands at the end of a preview exactly if it was put there. -/
theorem endsWith_note (front t language : Bytes) (isCut : Bool) :
    Bytes.endsWith (front ++ Fence.wrap t language ++ if isCut then utf8 "\n\n… (truncated)" else [])
      (utf8 "… (truncated)") = isCut := by
  rw [Bytes.endsWith, Bool.eq_iff_iff, List.isSuffixOf_iff_suffix]
  cases isCut with
  | true =>
      have note : utf8 "\n\n… (truncated)" = utf8 "\n\n" ++ utf8 "… (truncated)" := by decide
      rw [if_pos rfl, note, ← List.append_assoc]
      exact iff_of_true (List.suffix_append _ _) rfl
  | false =>
      refine iff_of_false ?_ Bool.false_ne_true
      rintro ⟨before, same⟩
      have last := congrArg List.getLast? same
      have ticks : Fence.wrap t language ≠ [] := by
        intro none
        have tick := getLast?_wrap t language
        rw [none] at tick
        cases tick
      rw [if_neg Bool.false_ne_true, List.append_nil, List.getLast?_append_of_ne_nil _ ticks, getLast?_wrap,
        List.getLast?_append_of_ne_nil _ (by decide)] at last
      revert last
      decide

/-- What is shown of a text of valid UTF-8 stops at the greatest boundary within the limit. -/
theorem exists_shown {t : Bytes} (valid : Bytes.isUtf8 t = true) (room : Nat) :
    ∃ n, IsGreatest {n : Nat | Boundary t n ∧ n ≤ room} n ∧
      (if room < t.length then dropBroken 4 ((t.take (room + 1)).take room) else t.take (room + 1)) = t.take n := by
  obtain ⟨n, floor⟩ := Bytes.exists_isFloor t (min room t.length)
  have near := floor.lt_add_four (Nat.min_le_right _ _)
  refine ⟨n, ⟨⟨floor.1.1, Nat.le_trans floor.1.2 (Nat.min_le_left _ _)⟩, ?_⟩, ?_⟩
  · rintro k ⟨boundary, within⟩
    exact floor.2 ⟨boundary, Nat.le_min.mpr ⟨within, boundary.le_length⟩⟩
  rw [List.take_take, Nat.min_eq_left (Nat.le_succ room)]
  by_cases long : room < t.length
  · rw [Nat.min_eq_left (Nat.le_of_lt long)] at floor near
    rw [if_pos long]
    exact dropBroken_take valid floor (Nat.le_of_lt long) (Nat.le_of_lt near)
  · rw [Nat.min_eq_right (Nat.le_of_not_lt long)] at floor
    obtain rfl : n = t.length := Bytes.isFloor_unique floor (Bytes.boundary_length t).isFloor
    rw [if_neg long, List.take_length, List.take_of_length_le (by omega)]

/-- Of a file of valid UTF-8 without NUL, whatever the limit, the preview shows the longest beginning that is within
the limit and cuts no rune, as text, and ends with a note exactly if the file is longer than the limit. -/
theorem excerpt_whole_runes {content : Bytes} (filled : content ≠ []) (valid : Bytes.isUtf8 content = true)
    (plain : 0 ∉ content) {limit : Int64} (pos : 1 ≤ limit) (below : limit < Int64.maxValue) (path : Bytes) :
    ∃ n, IsGreatest {n : Nat | Boundary content n ∧ (n : Int) ≤ limit.toInt} n ∧
      ofFile limit path content = ⟨.text, Fence.inline path ++ utf8 "\n\n" ++
        Fence.wrap (content.take n) (Target.language path) ++
        if limit.toInt < content.length then utf8 "\n\n… (truncated)" else []⟩ ∧
      (Bytes.endsWith (ofFile limit path content).text (utf8 "… (truncated)") = true ↔
        limit.toInt < content.length) := by
  obtain ⟨room, known⟩ : ∃ room : Nat, limit.toInt = room := by
    rw [Int64.le_iff_toInt_le] at pos
    exact Int.eq_ofNat_of_zero_le (Int.le_trans (by decide) pos)
  have clamped : limit.toNatClampNeg = room := by
    rw [← Int64.toNat_toInt, known, Int.toNat_natCast]
  have succ := toNatClampNeg_add_one pos below
  rw [clamped] at succ
  obtain ⟨n, greatest, shown⟩ := exists_shown valid room
  have text : (content.take n).any (· == 0) = false := by
    rw [List.any_eq_false]
    intro b mem
    rw [beq_iff_eq]
    rintro rfl
    exact plain (List.mem_of_mem_take mem)
  have whole : Bytes.isUtf8 (content.take n) = true := (Bytes.isUtf8_boundary valid greatest.1.1).1
  have some : (content.take (room + 1)).isEmpty = false := by
    rw [List.isEmpty_eq_false_iff]
    intro none
    cases List.take_eq_nil_iff.mp none with
    | inl zero => cases zero
    | inr empty => exact filled empty
  have cut : (content.take (room + 1)).length > room ↔ room < content.length := by
    rw [List.length_take]
    omega
  have preview : ofFile limit path content = ⟨.text, Fence.inline path ++ utf8 "\n\n" ++
      Fence.wrap (content.take n) (Target.language path) ++
      if room < content.length then utf8 "\n\n… (truncated)" else []⟩ := by
    simp only [ofFile, succ, clamped, some, cut, shown, text, whole, Bool.not_true, Bool.or_self, Bool.false_eq_true,
      if_false]
  have last := endsWith_note (Fence.inline path ++ utf8 "\n\n") (content.take n) (Target.language path)
    (decide (room < content.length))
  simp only [decide_eq_true_eq] at last
  simp only [known, Int.ofNat_le, Int.ofNat_lt]
  refine ⟨n, greatest, preview, ?_⟩
  rw [preview, last, decide_eq_true_eq]

/-- The limit is inside the third rune of this file. -/
theorem excerpt_whole_runes_umlaut :
    utf8 "abäö" ≠ [] ∧ Bytes.isUtf8 (utf8 "abäö") = true ∧ 0 ∉ utf8 "abäö" ∧ (1 : Int64) ≤ 3 ∧
      (3 : Int64) < Int64.maxValue ∧
      ∃ n, IsGreatest {n : Nat | Boundary (utf8 "abäö") n ∧ (n : Int) ≤ (3 : Int64).toInt} n ∧
        ofFile 3 (utf8 "/a.txt") (utf8 "abäö") = ⟨.text, Fence.inline (utf8 "/a.txt") ++ utf8 "\n\n" ++
          Fence.wrap ((utf8 "abäö").take n) (Target.language (utf8 "/a.txt")) ++
          if (3 : Int64).toInt < (utf8 "abäö").length then utf8 "\n\n… (truncated)" else []⟩ ∧
        (Bytes.endsWith (ofFile 3 (utf8 "/a.txt") (utf8 "abäö")).text (utf8 "… (truncated)") = true ↔
          (3 : Int64).toInt < (utf8 "abäö").length) := by
  have filled : utf8 "abäö" ≠ [] := by decide
  have valid : Bytes.isUtf8 (utf8 "abäö") = true := by decide
  have plain : 0 ∉ utf8 "abäö" := by decide
  exact ⟨filled, valid, plain, by decide, by decide,
    excerpt_whole_runes filled valid plain (by decide) (by decide) (utf8 "/a.txt")⟩

end Colloquy.Preview
