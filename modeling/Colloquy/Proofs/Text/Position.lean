import Colloquy.Proofs.Text.Boundary
import Colloquy.Text.LineIndex

/-! # Positions, line by line

The scans of `Position` and `LineIndex` carry the bytes of a rune that are still to be skipped. Here they
are brought into two simpler forms. The first goes rune by rune: one equation for each scan says what its
first rune does. The second goes line by line: a position on the first line is found in that line alone,
and a position below it is found in the other lines and moved down by one.
-/

namespace Colloquy

open Bytes LineIndex

namespace LineIndex

@[simp] theorem countUnits_nil (skip budget : Nat) : countUnits skip budget [] = 0 := by
  cases budget <;> simp [countUnits]

theorem countUnits_skip (skip budget : Nat) (t : Bytes) :
    countUnits skip budget t = countUnits 0 (budget - skip) (t.drop skip) := by
  induction t generalizing skip budget with
  | nil => simp
  | cons b rest ih =>
      cases skip with
      | zero => rfl
      | succ skip =>
          cases budget with
          | zero => simp [countUnits]
          | succ budget =>
              rw [countUnits, List.drop_succ_cons, Nat.add_sub_add_right]
              exact ih skip budget

/-- Counting goes on behind the first rune unless the budget ends inside it. -/
theorem countUnits_cons (budget : Nat) (b : UInt8) (rest : Bytes) :
    countUnits 0 budget (b :: rest) =
      if (Rune.decode b rest).width ≤ budget then
        (Rune.decode b rest).units + countUnits 0 (budget - (Rune.decode b rest).width)
          ((b :: rest).drop (Rune.decode b rest).width)
      else 0 := by
  have pos := Rune.width_pos b rest
  cases budget with
  | zero =>
      rw [if_neg (by omega)]
      simp [countUnits]
  | succ budget =>
      obtain ⟨w, hw⟩ : ∃ w, (Rune.decode b rest).width = w + 1 := ⟨_, (Nat.sub_add_cancel pos).symm⟩
      simp only [countUnits, hw, List.drop_succ_cons, Nat.add_sub_add_right, Nat.add_sub_cancel,
        countUnits_skip w budget rest]
      by_cases fits : w ≤ budget
      · rw [if_neg (by omega), if_pos (by omega)]
      · rw [if_pos (by omega), if_neg (by omega)]

end LineIndex

namespace Position

@[simp] theorem scanFrom_nil (line char skip budget : Nat) :
    scanFrom line char skip budget [] = ⟨line, char⟩ := by
  cases budget <;> simp [scanFrom]

theorem scanFrom_skip (line char skip budget : Nat) (t : Bytes) :
    scanFrom line char skip budget t = scanFrom line char 0 (budget - skip) (t.drop skip) := by
  induction t generalizing skip budget with
  | nil => simp
  | cons b rest ih =>
      cases skip with
      | zero => rfl
      | succ skip =>
          cases budget with
          | zero => simp [scanFrom]
          | succ budget =>
              rw [scanFrom, List.drop_succ_cons, Nat.add_sub_add_right]
              exact ih skip budget

theorem scanFrom_lf (line char budget : Nat) (rest : Bytes) :
    scanFrom line char 0 (budget + 1) (lf :: rest) = scanFrom (line + 1) 0 0 budget rest := by
  simp [scanFrom]

/-- Scanning goes on behind the first rune unless the budget ends inside it. A carriage return needs no
    rule of its own: the line feed behind it starts the next line all the same. -/
theorem scanFrom_cons (line char budget : Nat) {b : UInt8} (rest : Bytes) (h : b ≠ lf) :
    scanFrom line char 0 budget (b :: rest) =
      if (Rune.decode b rest).width ≤ budget then
        scanFrom line (char + (Rune.decode b rest).units) 0 (budget - (Rune.decode b rest).width)
          ((b :: rest).drop (Rune.decode b rest).width)
      else ⟨line, char⟩ := by
  have pos := Rune.width_pos b rest
  cases budget with
  | zero =>
      rw [if_neg (by omega)]
      simp [scanFrom]
  | succ budget =>
      obtain ⟨w, hw⟩ : ∃ w, (Rune.decode b rest).width = w + 1 := ⟨_, (Nat.sub_add_cancel pos).symm⟩
      rw [scanFrom, if_neg (by simpa using h)]
      split
      · rename_i pair
        simp only [Bool.and_eq_true, beq_iff_eq, decide_eq_true_eq] at pair
        obtain ⟨⟨rfl, more⟩, next⟩ := pair
        cases rest with
        | nil => simp at next
        | cons c rest =>
            obtain rfl : c = lf := by simpa using next
            have alone : Rune.decode cr (lf :: rest) = ⟨0x0D, 1⟩ := Rune.decode_ascii (by decide) _
            obtain ⟨budget, rfl⟩ : ∃ n, budget = n + 1 := ⟨budget - 1, by omega⟩
            rw [alone, if_pos (by simp), scanFrom_skip]
            simp [scanFrom_lf]
      · simp only [hw, List.drop_succ_cons, Nat.add_sub_add_right, Nat.add_sub_cancel,
          scanFrom_skip line _ w budget rest]
        by_cases fits : w ≤ budget
        · rw [if_neg (by omega), if_pos (by omega)]
        · rw [if_pos (by omega), if_neg (by omega)]

theorem advance_skip (want skip : Nat) (t : Bytes) (inside : skip ≤ t.length) :
    advance want skip t = skip + advance want 0 (t.drop skip) := by
  induction t generalizing skip with
  | nil =>
      obtain rfl : skip = 0 := Nat.le_zero.mp inside
      simp
  | cons b rest ih =>
      cases skip with
      | zero => simp
      | succ skip =>
          rw [advance, List.drop_succ_cons, ih skip (by simpa using inside)]
          omega

theorem advance_cons (want : Nat) (b : UInt8) (rest : Bytes) :
    advance want 0 (b :: rest) =
      if (Rune.decode b rest).units ≤ want then
        (Rune.decode b rest).width + advance (want - (Rune.decode b rest).units) 0
          ((b :: rest).drop (Rune.decode b rest).width)
      else 0 := by
  have pos := Rune.width_pos b rest
  have le := Rune.width_le b rest
  obtain ⟨w, hw⟩ : ∃ w, (Rune.decode b rest).width = w + 1 := ⟨_, (Nat.sub_add_cancel pos).symm⟩
  rw [advance]
  by_cases wanted : (Rune.decode b rest).units ≤ want
  · simp only [if_neg (Nat.not_lt.mpr wanted), if_pos wanted, hw, List.drop_succ_cons, Nat.add_sub_cancel]
    rw [advance_skip _ w rest (by omega)]
    omega
  · simp only [if_pos (Nat.not_le.mp wanted), if_neg wanted]

end Position

/-! ## Counting on one line -/

theorem LineIndex.countUnits_line {line tail : Bytes} (fresh : ∀ c ∈ tail.head?, c = lf) {n : Nat}
    (inside : n ≤ line.length) : countUnits 0 n (line ++ tail) = countUnits 0 n line := by
  induction line using runeInduction generalizing n with
  | nil =>
      obtain rfl : n = 0 := Nat.le_zero.mp inside
      cases tail <;> simp [countUnits]
  | cons b rest ih =>
      rw [List.cons_append, countUnits_cons, countUnits_cons, decode_line b rest fresh, ← List.cons_append,
        drop_width_append]
      by_cases fits : (Rune.decode b rest).width ≤ n
      · rw [if_pos fits, if_pos fits, ih]
        simp only [List.length_drop, List.length_cons] at inside ⊢
        omega
      · rw [if_neg fits, if_neg fits]

namespace Position

theorem scanFrom_line (l c : Nat) {line tail : Bytes} (one : lf ∉ line)
    (fresh : ∀ b ∈ tail.head?, b = lf) {n : Nat} (inside : n ≤ line.length) :
    scanFrom l c 0 n (line ++ tail) = ⟨l, (c + countUnits 0 n line : Nat)⟩ := by
  induction line using runeInduction generalizing n c with
  | nil =>
      obtain rfl : n = 0 := Nat.le_zero.mp inside
      cases tail <;> simp [scanFrom]
  | cons b rest ih =>
      have other : b ≠ lf := fun same => one (same ▸ List.mem_cons_self)
      rw [List.cons_append, scanFrom_cons l c n _ other, countUnits_cons, decode_line b rest fresh,
        ← List.cons_append, drop_width_append]
      by_cases fits : (Rune.decode b rest).width ≤ n
      · rw [if_pos fits, if_pos fits, ih, Nat.add_assoc]
        · exact fun member => one (List.mem_of_mem_drop member)
        · simp only [List.length_drop, List.length_cons] at inside ⊢
          omega
      · rw [if_neg fits, if_neg fits, Nat.add_zero]

/-- A scan that passes a line feed goes on at the start of the next line. -/
theorem scanFrom_behind_line (l c : Nat) {line rest : Bytes} (one : lf ∉ line) (n : Nat) :
    scanFrom l c 0 (line.length + 1 + n) (line ++ lf :: rest) = scanFrom (l + 1) 0 0 n rest := by
  induction line using runeInduction generalizing c with
  | nil =>
      rw [List.nil_append, List.length_nil, Nat.zero_add, Nat.add_comm, scanFrom_lf]
  | cons b more ih =>
      have other : b ≠ lf := fun same => one (same ▸ List.mem_cons_self)
      have width := Rune.width_le b more
      rw [List.cons_append, scanFrom_cons l c _ _ other, decode_line b more (by simp),
        ← List.cons_append, drop_width_append, if_pos (by simp only [List.length_cons]; omega)]
      rw [← ih (c + (Rune.decode b more).units) (fun member => one (List.mem_of_mem_drop member))]
      congr 1
      simp only [List.length_drop, List.length_cons]
      omega

theorem scanFrom_add_line (l d c skip n : Nat) (t : Bytes) :
    scanFrom (l + d) c skip n t =
      ⟨(scanFrom l c skip n t).line + d, (scanFrom l c skip n t).character⟩ := by
  fun_induction scanFrom l c skip n t with
  | case1 => simp [scanFrom]
  | case2 => simp
  | case3 l c skip n b rest ih => simpa only [scanFrom] using ih
  | case4 l c n b rest isLf ih =>
      rw [scanFrom, if_pos isLf, Nat.add_right_comm]
      exact ih
  | case5 l c n b rest notLf pair ih =>
      rw [scanFrom, if_neg notLf, if_pos pair, Nat.add_right_comm]
      exact ih
  | case6 l c n b rest notLf notPair r cut =>
      rw [scanFrom, if_neg notLf, if_neg notPair]
      simp only [r] at cut
      simp [cut]
  | case7 l c n b rest notLf notPair r fits ih =>
      rw [scanFrom, if_neg notLf, if_neg notPair]
      simp only [r] at fits ih
      simp only [if_neg fits]
      exact ih

/-! ## From offsets to positions -/

theorem ofOffset_clamp (t : Bytes) (offset : Int) :
    ofOffset t offset = ofOffset t (min offset.toNat t.length : Nat) := by
  rw [ofOffset, ofOffset, Int.toNat_natCast, Nat.min_assoc, Nat.min_self]

theorem fresh_nil : ∀ b ∈ ([] : Bytes).head?, b = lf := by simp

theorem ofOffset_line {line tail : Bytes} (one : lf ∉ line) (fresh : ∀ b ∈ tail.head?, b = lf) {n : Nat}
    (inside : n ≤ line.length) : ofOffset (line ++ tail) n = ⟨0, (countUnits 0 n line : Nat)⟩ := by
  have clamped : min n (line ++ tail).length = n := by
    rw [List.length_append]
    omega
  rw [ofOffset, Int.toNat_natCast, clamped, scanFrom_line 0 0 one fresh inside, Nat.zero_add]
  rfl

theorem ofOffset_last {t : Bytes} (one : lf ∉ t) {n : Nat} (inside : n ≤ t.length) :
    ofOffset t n = ⟨0, (countUnits 0 n t : Nat)⟩ := by
  have first := ofOffset_line one fresh_nil inside
  rw [List.append_nil] at first
  exact first

theorem ofOffset_behind_line {line rest : Bytes} (one : lf ∉ line) (n : Nat) :
    ofOffset (line ++ lf :: rest) (line.length + 1 + n : Nat) =
      ⟨(ofOffset rest n).line + 1, (ofOffset rest n).character⟩ := by
  have clamped : min (line.length + 1 + n) (line ++ lf :: rest).length =
      line.length + 1 + min n rest.length := by
    rw [List.length_append, List.length_cons]
    omega
  simp only [ofOffset, Int.toNat_natCast, clamped]
  rw [scanFrom_behind_line 0 0 one]
  exact scanFrom_add_line 0 1 0 0 _ rest

theorem scanFrom_nonneg (l c skip n : Nat) (t : Bytes) :
    0 ≤ (scanFrom l c skip n t).line ∧ 0 ≤ (scanFrom l c skip n t).character := by
  fun_induction scanFrom l c skip n t with
  | case1 | case2 | case6 => exact ⟨Int.natCast_nonneg _, Int.natCast_nonneg _⟩
  | case3 _ _ _ _ _ _ ih => exact ih
  | case4 _ _ _ _ _ _ ih => exact ih
  | case5 _ _ _ _ _ _ _ ih => exact ih
  | case7 _ _ _ _ _ _ _ _ _ ih => exact ih

theorem ofOffset_nonneg (t : Bytes) (offset : Int) :
    0 ≤ (ofOffset t offset).line ∧ 0 ≤ (ofOffset t offset).character :=
  scanFrom_nonneg 0 0 0 _ t

/-! ## From positions to offsets -/

theorem lineOf_line {line tail : Bytes} (one : lf ∉ line) (fresh : ∀ b ∈ tail.head?, b = lf) :
    lineOf (line ++ tail) = line := by
  unfold lineOf
  rw [List.takeWhile_append_of_pos (by
    intro b member
    simpa using fun same : b = lf => one (same ▸ member))]
  cases tail with
  | nil => simp
  | cons b tail => simp [fresh b (by simp)]

theorem dropLines_passed (n passed : Nat) (t : Bytes) :
    dropLines n passed t = (dropLines n 0 t).map fun found => (passed + found.1, found.2) := by
  induction t generalizing n passed with
  | nil => cases n <;> simp [dropLines]
  | cons b rest ih =>
      cases n with
      | zero => simp [dropLines]
      | succ n =>
          simp only [dropLines]
          split
          · rw [ih n (passed + 1), ih n (0 + 1), Option.map_map]
            congr 1
            funext found
            simp [Nat.add_assoc]
          · rw [ih (n + 1) (passed + 1), ih (n + 1) (0 + 1), Option.map_map]
            congr 1
            funext found
            simp [Nat.add_assoc]

theorem dropLines_last {t : Bytes} (one : lf ∉ t) (n : Nat) : dropLines (n + 1) 0 t = none := by
  induction t with
  | nil => rfl
  | cons b rest ih =>
      have other : ¬ b = lf := fun same => one (same ▸ List.mem_cons_self)
      rw [dropLines, if_neg (by simpa using other), dropLines_passed,
        ih fun member => one (List.mem_cons_of_mem b member)]
      rfl

theorem dropLines_behind_line {line rest : Bytes} (one : lf ∉ line) (n : Nat) :
    dropLines (n + 1) 0 (line ++ lf :: rest) =
      (dropLines n 0 rest).map fun found => (line.length + 1 + found.1, found.2) := by
  induction line with
  | nil =>
      rw [List.nil_append, dropLines, if_pos (by simp), dropLines_passed]
      rfl
  | cons b more ih =>
      have other : ¬ b = lf := fun same => one (same ▸ List.mem_cons_self)
      rw [List.cons_append, dropLines, if_neg (by simpa using other), dropLines_passed,
        ih fun member => one (List.mem_cons_of_mem b member), Option.map_map]
      congr 1
      funext found
      simp only [Function.comp_apply, List.length_cons]
      congr 1
      omega

theorem negative_iff (p : Position) :
    (decide (p.line < 0) || decide (p.character < 0)) = true ↔ p.line < 0 ∨ p.character < 0 := by
  rw [Bool.or_eq_true, decide_eq_true_eq, decide_eq_true_eq]

theorem not_negative {p : Position} (hl : 0 ≤ p.line) (hc : 0 ≤ p.character) :
    ¬ (decide (p.line < 0) || decide (p.character < 0)) = true := by
  rw [negative_iff]
  omega

theorem toOffset_of_negative (t : Bytes) {p : Position} (h : p.line < 0 ∨ p.character < 0) :
    toOffset t p = 0 := by
  rw [toOffset, if_pos ((negative_iff p).mpr h)]

theorem toOffset_of_nonneg (t : Bytes) {p : Position} (hl : 0 ≤ p.line) (hc : 0 ≤ p.character) :
    toOffset t p = (dropLines p.line.toNat 0 t).elim t.length fun found =>
      found.1 + advance p.character.toNat 0 (lineOf found.2) := by
  rw [toOffset, if_neg (not_negative hl hc)]
  cases dropLines p.line.toNat 0 t <;> rfl

theorem toOffset_first {line tail : Bytes} (one : lf ∉ line) (fresh : ∀ b ∈ tail.head?, b = lf)
    {c : Int} (hc : 0 ≤ c) : toOffset (line ++ tail) ⟨0, c⟩ = advance c.toNat 0 line := by
  rw [toOffset_of_nonneg _ (Int.le_refl 0) hc]
  simp [dropLines, lineOf_line one fresh]

theorem toOffset_last {t : Bytes} (one : lf ∉ t) {c : Int} (hc : 0 ≤ c) :
    toOffset t ⟨0, c⟩ = advance c.toNat 0 t := by
  have first := toOffset_first one fresh_nil hc
  rw [List.append_nil] at first
  exact first

theorem toOffset_below {line : Bytes} (one : lf ∉ line) (rest : Bytes) {p : Position} (hl : 0 ≤ p.line)
    (hc : 0 ≤ p.character) :
    toOffset (line ++ lf :: rest) ⟨p.line + 1, p.character⟩ = line.length + 1 + toOffset rest p := by
  have number : (p.line + 1).toNat = p.line.toNat + 1 := by omega
  rw [toOffset_of_nonneg rest hl hc,
    toOffset_of_nonneg (p := ⟨p.line + 1, p.character⟩) _ (Int.le_add_one hl) hc, number,
    dropLines_behind_line one]
  cases dropLines p.line.toNat 0 rest with
  | none =>
      simp only [Option.map_none, Option.elim_none, List.length_append, List.length_cons]
      omega
  | some found => simp only [Option.map_some, Option.elim_some, Nat.add_assoc]

theorem toOffset_past {t : Bytes} (one : lf ∉ t) {p : Position} (hl : 0 ≤ p.line)
    (hc : 0 ≤ p.character) : toOffset t ⟨p.line + 1, p.character⟩ = t.length := by
  have number : (p.line + 1).toNat = p.line.toNat + 1 := by omega
  rw [toOffset_of_nonneg (p := ⟨p.line + 1, p.character⟩) t (Int.le_add_one hl) hc, number,
    dropLines_last one]
  rfl

theorem first_or_below {p : Position} (hl : 0 ≤ p.line) (hc : 0 ≤ p.character) :
    (∃ c, 0 ≤ c ∧ p = ⟨0, c⟩) ∨
      ∃ q : Position, 0 ≤ q.line ∧ 0 ≤ q.character ∧ p = ⟨q.line + 1, q.character⟩ := by
  obtain ⟨l, c⟩ := p
  obtain rfl | lower := Int.le_iff_eq_or_lt.mp hl
  · exact .inl ⟨c, hc, rfl⟩
  · refine .inr ⟨⟨l - 1, c⟩, Int.le_sub_one_of_lt lower, hc, ?_⟩
    simp only [Int.sub_add_cancel]

/-- Induction over the lines above a position. -/
theorem aboveInduction {motive : Bytes → Position → Prop}
    (negative : ∀ t p, p.line < 0 ∨ p.character < 0 → motive t p)
    (last : ∀ t c, lf ∉ t → 0 ≤ c → motive t ⟨0, c⟩)
    (past : ∀ t (q : Position), lf ∉ t → 0 ≤ q.line → 0 ≤ q.character →
      motive t ⟨q.line + 1, q.character⟩)
    (first : ∀ line rest c, lf ∉ line → 0 ≤ c → motive (line ++ lf :: rest) ⟨0, c⟩)
    (below : ∀ line rest (q : Position), lf ∉ line → 0 ≤ q.line → 0 ≤ q.character → motive rest q →
      motive (line ++ lf :: rest) ⟨q.line + 1, q.character⟩) (t : Bytes) (p : Position) : motive t p := by
  by_cases allowed : 0 ≤ p.line ∧ 0 ≤ p.character
  · obtain ⟨hl, hc⟩ := allowed
    induction t using lineInduction generalizing p with
    | last t one =>
        obtain ⟨c, hc, rfl⟩ | ⟨q, ql, qc, rfl⟩ := first_or_below hl hc
        · exact last t c one hc
        · exact past t q one ql qc
    | more line rest one ih =>
        obtain ⟨c, hc, rfl⟩ | ⟨q, ql, qc, rfl⟩ := first_or_below hl hc
        · exact first line rest c one hc
        · exact below line rest q one ql qc (ih q ql qc)
  · exact negative t p (by omega)

end Position

end Colloquy
