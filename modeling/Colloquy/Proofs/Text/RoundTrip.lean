import Colloquy.Proofs.Text.LineIndex

/-! # From offsets to positions and back

The position of an offset leads back to the greatest rune boundary at or before that offset, whatever the
bytes are. In the other direction a position on an existing line leads to the greatest character of that
line that some offset has. Both hold within one line, by induction on its runes, and carry over to the
whole text line by line.
-/

namespace Colloquy.Position

open Bytes LineIndex

/-! ## Within one line -/

/-- Advancing over the units before an offset stops at the boundary before it. -/
theorem isFloor_advance_countUnits (line : Bytes) (n : Nat) :
    IsFloor line n (advance (countUnits 0 n line) 0 line) := by
  induction line using runeInduction generalizing n with
  | nil => exact ⟨⟨.zero, Nat.zero_le n⟩, fun m other => Nat.le_of_eq (boundary_nil.mp other.1)⟩
  | cons b rest ih =>
      rw [countUnits_cons, advance_cons]
      by_cases fits : (Rune.decode b rest).width ≤ n
      · rw [if_pos fits, if_pos (Nat.le_add_right _ _), Nat.add_sub_cancel_left]
        exact .cons fits (ih _)
      · have some_units := Rune.units_pos (Rune.decode b rest)
        rw [if_neg fits, if_neg (by omega)]
        exact isFloor_zero_of_lt (Nat.not_le.mp fits)

theorem advance_le_length (want : Nat) (line : Bytes) : advance want 0 line ≤ line.length := by
  induction line using runeInduction generalizing want with
  | nil => simp [advance]
  | cons b rest ih =>
      have width := Rune.width_le b rest
      have more := ih (want - (Rune.decode b rest).units)
      rw [advance_cons]
      simp only [List.length_drop, List.length_cons] at more ⊢
      split <;> omega

theorem countUnits_advance_le (want : Nat) (line : Bytes) :
    countUnits 0 (advance want 0 line) line ≤ want := by
  induction line using runeInduction generalizing want with
  | nil => simp
  | cons b rest ih =>
      have more := ih (want - (Rune.decode b rest).units)
      have width := Rune.width_pos b rest
      rw [countUnits_cons, advance_cons]
      by_cases wanted : (Rune.decode b rest).units ≤ want
      · rw [if_pos wanted, if_pos (Nat.le_add_right _ _), Nat.add_sub_cancel_left]
        omega
      · rw [if_neg wanted, if_neg (by omega)]
        exact Nat.zero_le want

theorem countUnits_le_advance {want n : Nat} {line : Bytes} (enough : countUnits 0 n line ≤ want) :
    countUnits 0 n line ≤ countUnits 0 (advance want 0 line) line := by
  induction line using runeInduction generalizing want n with
  | nil => simp
  | cons b rest ih =>
      rw [countUnits_cons] at enough ⊢
      split at enough
      · rename_i fits
        have wanted : (Rune.decode b rest).units ≤ want := by omega
        have left : countUnits 0 (n - (Rune.decode b rest).width) ((b :: rest).drop (Rune.decode b rest).width) ≤
            want - (Rune.decode b rest).units := by omega
        have more := ih left
        rw [advance_cons, if_pos wanted, if_pos fits, countUnits_cons, if_pos (Nat.le_add_right _ _),
          Nat.add_sub_cancel_left]
        omega
      · rename_i cut
        rw [if_neg cut]
        exact Nat.zero_le _

/-! ## Over all lines -/

/-- The position of an offset leads back to the boundary before it. -/
theorem isFloor_toOffset_ofOffset (t : Bytes) {n : Nat} (inside : n ≤ t.length) :
    IsFloor t n ((ofOffset t n).toOffset t) := by
  induction t using lineInduction generalizing n with
  | last t one =>
      rw [ofOffset_last one inside, toOffset_last one (Int.natCast_nonneg _), Int.toNat_natCast]
      exact isFloor_advance_countUnits t n
  | more line rest one ih =>
      by_cases first : n ≤ line.length
      · rw [ofOffset_line one (by simp) first, toOffset_first one (by simp) (Int.natCast_nonneg _),
          Int.toNat_natCast]
        exact (isFloor_advance_countUnits line n).line (by simp) first
      · obtain ⟨m, rfl⟩ := Nat.exists_eq_add_of_le (Nat.succ_le_of_lt (Nat.not_le.mp first))
        rw [List.length_append, List.length_cons] at inside
        obtain ⟨hl, hc⟩ := ofOffset_nonneg rest m
        rw [Nat.succ_eq_add_one, ofOffset_behind_line one, toOffset_below one rest hl hc]
        exact (ih (by omega)).behind_line

/-- The characters of a line: those that some offset on it has. -/
def Reachable (t : Bytes) (line c : Int) : Prop := ∃ o : Int, ofOffset t o = ⟨line, c⟩

theorem reachable_first {line tail : Bytes} (one : lf ∉ line) (fresh : ∀ b ∈ tail.head?, b = lf) {c : Int} :
    Reachable (line ++ tail) 0 c ↔ ∃ n ≤ line.length, c = (countUnits 0 n line : Nat) := by
  constructor
  · rintro ⟨o, ho⟩
    rw [ofOffset_clamp] at ho
    by_cases first : min o.toNat (line ++ tail).length ≤ line.length
    · rw [ofOffset_line one fresh first] at ho
      exact ⟨_, first, (congrArg character ho).symm⟩
    · -- behind the line feed the line number is not zero
      cases tail with
      | nil =>
          rw [List.append_nil] at first
          omega
      | cons b rest =>
          obtain rfl := fresh b (by simp)
          obtain ⟨m, hm⟩ := Nat.exists_eq_add_of_le (Nat.succ_le_of_lt (Nat.not_le.mp first))
          rw [hm, Nat.succ_eq_add_one, ofOffset_behind_line one] at ho
          have zero : (ofOffset rest m).line + 1 = 0 := congrArg Position.line ho
          have := (ofOffset_nonneg rest m).1
          omega
  · rintro ⟨n, inside, rfl⟩
    exact ⟨n, ofOffset_line one fresh inside⟩

theorem reachable_below {line : Bytes} (one : lf ∉ line) (rest : Bytes) {l c : Int} (hl : 0 ≤ l) :
    Reachable (line ++ lf :: rest) (l + 1) c ↔ Reachable rest l c := by
  constructor
  · rintro ⟨o, ho⟩
    rw [ofOffset_clamp] at ho
    by_cases first : min o.toNat (line ++ lf :: rest).length ≤ line.length
    · rw [ofOffset_line one (by simp) first] at ho
      have zero : 0 = l + 1 := congrArg Position.line ho
      omega
    · obtain ⟨m, hm⟩ := Nat.exists_eq_add_of_le (Nat.succ_le_of_lt (Nat.not_le.mp first))
      rw [hm, Nat.succ_eq_add_one, ofOffset_behind_line one] at ho
      have number : (ofOffset rest m).line + 1 = l + 1 := congrArg Position.line ho
      have unit : (ofOffset rest m).character = c := congrArg character ho
      refine ⟨m, ?_⟩
      rw [← unit, show l = (ofOffset rest m).line by omega]
  · rintro ⟨o, ho⟩
    rw [ofOffset_clamp] at ho
    exact ⟨_, by rw [ofOffset_behind_line one, ho]⟩

theorem isGreatest_first {line tail : Bytes} (one : lf ∉ line) (fresh : ∀ b ∈ tail.head?, b = lf)
    {c : Int} (hc : 0 ≤ c) :
    (ofOffset (line ++ tail) (toOffset (line ++ tail) ⟨0, c⟩)).line = 0 ∧
      IsGreatest {d | Reachable (line ++ tail) 0 d ∧ d ≤ c}
        (ofOffset (line ++ tail) (toOffset (line ++ tail) ⟨0, c⟩)).character := by
  rw [toOffset_first one fresh hc, ofOffset_line one fresh (advance_le_length _ line)]
  refine ⟨rfl, ⟨(reachable_first one fresh).mpr ⟨_, advance_le_length _ line, rfl⟩, ?_⟩, ?_⟩
  · have := countUnits_advance_le c.toNat line
    simp only
    omega
  · rintro d ⟨reached, le⟩
    obtain ⟨n, inside, rfl⟩ := (reachable_first one fresh).mp reached
    have enough : countUnits 0 n line ≤ c.toNat := by omega
    have := countUnits_le_advance enough
    simp only
    omega

/-- A position on an existing line leads to the greatest character that is reached and not passed. -/
theorem isGreatest_ofOffset_toOffset (t : Bytes) {p : Position} (hl : 0 ≤ p.line)
    (onLine : p.line < (ofText t).lineCount) (hc : 0 ≤ p.character) :
    (ofOffset t (p.toOffset t)).line = p.line ∧
      IsGreatest {c | Reachable t p.line c ∧ c ≤ p.character} (ofOffset t (p.toOffset t)).character := by
  induction t using lineInduction generalizing p with
  | last t one =>
      rw [lineCount_last one] at onLine
      obtain ⟨l, c⟩ := p
      obtain rfl : l = 0 := Int.le_antisymm (Int.le_of_lt_add_one onLine) hl
      simpa only [List.append_nil] using isGreatest_first one fresh_nil hc
  | more line rest one ih =>
      obtain ⟨c, hc, rfl⟩ | ⟨q, ql, qc, rfl⟩ := first_or_below hl hc
      · exact isGreatest_first one (by simp) hc
      · rw [lineCount_behind_line one] at onLine
        have there := ih ql (by simp only at onLine; omega) qc
        simp only [toOffset_below one rest ql qc, ofOffset_behind_line one, reachable_below one rest ql]
        exact ⟨congrArg (· + 1) there.1, there.2⟩

theorem line_ofOffset_lt (t : Bytes) (o : Int) : (ofOffset t o).line < (ofText t).lineCount := by
  rw [ofOffset_clamp]
  obtain ⟨k, start, here, _, _, found⟩ := ofOffset_eq_countUnits t (Nat.min_le_right o.toNat t.length)
  rw [found]
  exact Int.ofNat_lt.mpr (List.getElem?_eq_some_iff.mp here).1

/-- Going back and forth ends at the position that was left. -/
theorem ofOffset_toOffset_ofOffset (t : Bytes) (o : Int) :
    ofOffset t ((ofOffset t o).toOffset t) = ofOffset t o := by
  obtain ⟨hl, hc⟩ := ofOffset_nonneg t o
  obtain ⟨line, reached, greatest⟩ := isGreatest_ofOffset_toOffset t hl (line_ofOffset_lt t o) hc
  have le : (ofOffset t o).character ≤ (ofOffset t ((ofOffset t o).toOffset t)).character :=
    greatest ⟨⟨o, rfl⟩, Int.le_refl _⟩
  have char := Int.le_antisymm reached.2 le
  cases h : ofOffset t ((ofOffset t o).toOffset t)
  cases h' : ofOffset t o
  simp_all

/-- Offsets and positions determine each other up to the rune that an offset cuts, and up to the end of
    the line that a position passes. -/
theorem offset_position_round_trip (t : Bytes) :
    (∀ o : Int, IsGreatest {b | Boundary t b ∧ b ≤ min o.toNat t.length} ((ofOffset t o).toOffset t)) ∧
    (∀ b, Boundary t b → (ofOffset t b).toOffset t = b) ∧
    (∀ o : Int, ofOffset t ((ofOffset t o).toOffset t) = ofOffset t o) ∧
    (∀ p : Position, 0 ≤ p.line → p.line < (ofText t).lineCount → 0 ≤ p.character →
      (ofOffset t (p.toOffset t)).line = p.line ∧
        IsGreatest {c | Reachable t p.line c ∧ c ≤ p.character} (ofOffset t (p.toOffset t)).character) := by
  refine ⟨?_, ?_, ofOffset_toOffset_ofOffset t, fun p => isGreatest_ofOffset_toOffset t⟩
  · intro o
    rw [ofOffset_clamp]
    exact isFloor_toOffset_ofOffset t (Nat.min_le_right _ _)
  · intro b boundary
    exact isFloor_unique (isFloor_toOffset_ofOffset t boundary.le_length) boundary.isFloor

/-- The offset between a carriage return and a line feed comes back, and so does the end of a line that
    holds an undecodable byte. -/
theorem offset_position_round_trip_return :
    (ofOffset [0xC3, 0xA9, cr, lf, 0x80] 3).toOffset [0xC3, 0xA9, cr, lf, 0x80] = 3 ∧
      (ofOffset [0xC3, 0xA9, cr, lf, 0x80] (toOffset [0xC3, 0xA9, cr, lf, 0x80] ⟨1, 7⟩)).line = 1 := by
  have reached : Boundary [0xC3, 0xA9, cr, lf, 0x80] 3 := by
    have letter : Boundary [0xC3, 0xA9, cr, lf, 0x80] 2 := .next .zero (List.drop_zero ..)
    exact .next letter rfl
  refine ⟨(offset_position_round_trip _).2.1 3 reached, ?_⟩
  exact ((offset_position_round_trip _).2.2.2 ⟨1, 7⟩ (by decide) (by decide) (by decide)).1

end Colloquy.Position
