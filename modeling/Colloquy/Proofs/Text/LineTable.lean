import Colloquy.Proofs.Text.Bytes
import Colloquy.Proofs.Text.LineIndex

/-! # The lines of the table

For every line number the table has a start and an end. Numbers below the first line stand for the start of the text
and numbers above the last one for its end, and what lies between the bounds of the lines in order is the text without
its line feeds. The end of a line is found in the table one number further on, so the greatest 64-bit number, which has
no successor, has a start but no end.
-/

namespace Colloquy.LineIndex

open Bytes Position

/-! ## Bounds -/

theorem lineEnd_le (t : Bytes) (k : Nat) : (ofText t).lineEnd k ≤ t.length := by
  cases behind : (ofText t).starts[k + 1]? with
  | none =>
      rw [lineEnd, behind]
      exact Nat.le_refl _
  | some next =>
      rw [lineEnd, behind]
      exact Nat.le_trans (Nat.sub_le next 1) (starts_le t next (List.mem_of_getElem? behind))

theorem lineStart_behind_line {line : Bytes} (one : lf ∉ line) (rest : Bytes) (k : Nat) :
    (ofText (line ++ lf :: rest)).lineStart (k + 1 : Nat) = line.length + 1 + (ofText rest).lineStart k := by
  rw [lineStart_natCast, lineStart_natCast, starts_behind_line one, List.getElem?_cons_succ, List.getElem?_map]
  cases (ofText rest).starts[k]? with
  | none =>
      rw [Option.map_none, Option.getD_none, Option.getD_none, List.length_append, List.length_cons]
      omega
  | some start => rfl

theorem lineStart_le_lineEnd (t : Bytes) (k : Nat) : (ofText t).lineStart k ≤ (ofText t).lineEnd k := by
  cases behind : (ofText t).starts[k + 1]? with
  | none =>
      rw [lineEnd, behind]
      exact lineStart_le t k
  | some next =>
      -- The next line starts behind this one, so the line feed in front of it is not before this start.
      obtain ⟨inside, rfl⟩ := List.getElem?_eq_some_iff.mp behind
      have later := List.pairwise_iff_getElem.mp (starts_sorted t) k (k + 1) (by omega) inside (Nat.lt_succ_self k)
      have here : (ofText t).starts[k]? = some (ofText t).starts[k] :=
        List.getElem?_eq_getElem (Nat.lt_of_succ_lt inside)
      rw [lineEnd, behind, lineStart_natCast, here]
      exact Nat.le_sub_one_of_lt later

theorem lineStart_past {t : Bytes} {k : Nat} (past : (ofText t).lineCount ≤ k) :
    (ofText t).lineStart k = t.length := by
  rw [lineStart_natCast, List.getElem?_eq_none past, Option.getD_none]

theorem lineEnd_past {t : Bytes} {k : Nat} (past : (ofText t).lineCount ≤ k) : (ofText t).lineEnd k = t.length := by
  rw [lineEnd, List.getElem?_eq_none (Nat.le_succ_of_le past), text_ofText]

/-! ## The lines -/

/-- The line with a number, without the line feed behind it. -/
def lineText (ix : LineIndex) (k : Nat) : Bytes := slice ix.text (ix.lineStart k) (ix.lineEnd k)

def lineTexts (ix : LineIndex) : List Bytes := (List.range ix.lineCount).map ix.lineText

theorem lineText_first {line tail : Bytes} (one : lf ∉ line) (fresh : ∀ b ∈ tail.head?, b = lf) :
    (ofText (line ++ tail)).lineText 0 = line := by
  have start : (ofText (line ++ tail)).lineStart (0 : Nat) = 0 := rfl
  rw [lineText, start, lineEnd_first one fresh]
  simp [slice]

theorem lineText_behind_line {line : Bytes} (one : lf ∉ line) (rest : Bytes) (k : Nat) :
    (ofText (line ++ lf :: rest)).lineText (k + 1) = (ofText rest).lineText k := by
  rw [lineText, lineText, lineStart_behind_line one, lineEnd_behind_line one, slice, slice, text_ofText, text_ofText,
    drop_behind_line, Nat.add_sub_add_left]

/-- The lines of the table are the pieces between the line feeds. -/
theorem lineTexts_eq_splitOn (t : Bytes) : (ofText t).lineTexts = splitOn t lf := by
  induction t using lineInduction with
  | last t one =>
      have whole := lineText_first one fresh_nil
      rw [List.append_nil] at whole
      rw [lineTexts, lineCount_last one, List.range_one, List.map_singleton, whole, splitOn_of_not_mem one]
  | more line rest one ih =>
      rw [lineTexts, lineCount_behind_line one, List.range_succ_eq_map, List.map_cons, List.map_map,
        lineText_first one (by simp), splitOn_append_sep, splitOn_of_not_mem one, ← ih]
      exact congrArg (line :: ·) (List.map_congr_left fun k _ => lineText_behind_line one rest k)

/-! ## Line numbers of 64 bits -/

variable {n : Int64}

/-- Only the greatest number has a successor that is negative. -/
theorem succ_negative_iff (nonneg : 0 ≤ n) : n + 1 < 0 ↔ n = Int64.maxValue := by
  constructor
  · intro wrapped
    by_contra other
    have zero : (0 : Int64).toInt = 0 := rfl
    rw [Int64.lt_iff_toInt_lt, toInt_add_one other, zero] at wrapped
    rw [Int64.le_iff_toInt_le, zero] at nonneg
    omega
  · rintro rfl
    decide

theorem bounds_negative (ix : LineIndex) (negative : n < 0) :
    ix.lineStart n.toInt = 0 ∧ ix.lineEnd? n = some 0 := by
  refine ⟨lineStart_of_nonpos ix ?_, if_pos negative⟩
  exact Int.le_of_lt (Int64.lt_iff_toInt_lt.mp negative)

/-- A number that is not negative has the end that the table gives it, unless it is the greatest. -/
theorem exists_number (nonneg : 0 ≤ n) : ∃ k : Nat, n.toInt = k ∧
    ∀ ix : LineIndex, n ≠ Int64.maxValue → ix.lineEnd? n = some (ix.lineEnd k) := by
  obtain ⟨k, number⟩ := Int.eq_ofNat_of_zero_le (Int64.le_iff_toInt_le.mp nonneg)
  refine ⟨k, number, fun ix other => ?_⟩
  rw [lineEnd?, if_neg (Int64.not_lt.mpr nonneg), if_neg (other ∘ (succ_negative_iff nonneg).mp), number,
    Int.toNat_natCast]

/-- Line bounds are clamped and divide the text, for every text and every 64-bit line number but the greatest, which has
a start and no end. Bounds lie in the text in their order. A negative number stands for the start of the text, and one
that is too large for its end. Between the bounds of any other number stands its line, which holds no line feed, and
all lines joined with line feeds are the text. -/
theorem line_bounds_unless_greatest (t : Bytes) :
    let ix := ofText t
    (∀ n : Int64, ix.lineStart n.toInt ≤ t.length) ∧
    (∀ n : Int64, n ≠ Int64.maxValue →
      ∃ stop, ix.lineEnd? n = some stop ∧ ix.lineStart n.toInt ≤ stop ∧ stop ≤ t.length) ∧
    ix.lineEnd? Int64.maxValue = none ∧
    (∀ n : Int64, n < 0 → ix.lineStart n.toInt = 0 ∧ ix.lineEnd? n = some 0) ∧
    (∀ n : Int64, ix.lineCount ≤ n.toInt →
      ix.lineStart n.toInt = t.length ∧ (n ≠ Int64.maxValue → ix.lineEnd? n = some t.length)) ∧
    (∀ n : Int64, 0 ≤ n → n ≠ Int64.maxValue → ∃ stop,
      ix.lineEnd? n = some stop ∧ slice t (ix.lineStart n.toInt) stop = ix.lineText n.toInt.toNat) ∧
    (∀ k < ix.lineCount, lf ∉ ix.lineText k) ∧
    join [lf] ix.lineTexts = t := by
  intro ix
  refine ⟨fun n => lineStart_le t n.toInt, ?_, rfl, fun n => bounds_negative ix, ?_, ?_, ?_, ?_⟩
  · intro n other
    by_cases negative : n < 0
    · obtain ⟨start, stop⟩ := bounds_negative ix negative
      exact ⟨0, stop, Nat.le_of_eq start, Nat.zero_le _⟩
    · obtain ⟨k, number, answered⟩ := exists_number (Int64.not_lt.mp negative)
      exact ⟨ix.lineEnd k, answered ix other, number ▸ lineStart_le_lineEnd t k, lineEnd_le t k⟩
  · intro n past
    have nonneg : 0 ≤ n := Int64.le_iff_toInt_le.mpr (Int.le_trans (Int.natCast_nonneg _) past)
    obtain ⟨k, number, answered⟩ := exists_number nonneg
    rw [number, Int.ofNat_le] at past
    refine ⟨number ▸ lineStart_past past, fun other => ?_⟩
    rw [answered ix other, lineEnd_past past]
  · intro n nonneg other
    obtain ⟨k, number, answered⟩ := exists_number nonneg
    exact ⟨ix.lineEnd k, answered ix other, by rw [number]; rfl⟩
  · intro k inside
    have piece : ix.lineText k ∈ ix.lineTexts := List.mem_map_of_mem (List.mem_range.mpr inside)
    rw [lineTexts_eq_splitOn] at piece
    exact not_mem_of_mem_splitOn _ piece
  · rw [lineTexts_eq_splitOn, join_splitOn]

/-- The least number, the number of an empty line, the number behind the last line, and the greatest number but one. -/
theorem line_bounds_unless_greatest_blank :
    let t := utf8 "a\n\nb"
    let ix := ofText t
    ix.lineStart Int64.minValue.toInt ≤ t.length ∧
      (Int64.minValue < 0 ∧ ix.lineEnd? Int64.minValue = some 0) ∧
      (ix.lineCount ≤ (3 : Int64).toInt ∧ (3 : Int64) ≠ Int64.maxValue ∧ ix.lineEnd? 3 = some t.length) ∧
      (∃ stop, ix.lineEnd? 1 = some stop ∧ slice t (ix.lineStart 1) stop = ix.lineText 1) ∧
      (1 < ix.lineCount ∧ lf ∉ ix.lineText 1) ∧
      Int64.maxValue - 1 ≠ Int64.maxValue ∧ ∃ stop, ix.lineEnd? (Int64.maxValue - 1) = some stop ∧ stop ≤ t.length := by
  intro t ix
  obtain ⟨within, ordered, -, negative, past, between, unbroken, -⟩ := line_bounds_unless_greatest t
  have almost : Int64.maxValue - 1 ≠ Int64.maxValue := by decide
  obtain ⟨stop, answered, -, inside⟩ := ordered (Int64.maxValue - 1) almost
  exact ⟨within Int64.minValue, ⟨by decide, (negative _ (by decide)).2⟩,
    ⟨by decide, by decide, (past 3 (by decide)).2 (by decide)⟩,
    between 1 (by decide) (by decide), ⟨by decide, unbroken 1 (by decide)⟩,
    almost, stop, answered, inside⟩

/-- The greatest number has no end: its successor is negative and names no line. Its start is clamped. -/
theorem greatest_number_without_end :
    let t := utf8 "a\nb"
    (ofText t).lineStart Int64.maxValue.toInt = t.length ∧ (ofText t).lineEnd? (Int64.maxValue - 1) = some t.length ∧
      ¬ ∃ stop, (ofText t).lineEnd? Int64.maxValue = some stop := by
  refine ⟨by decide, by decide, ?_⟩
  rintro ⟨stop, found⟩
  cases found

end Colloquy.LineIndex
