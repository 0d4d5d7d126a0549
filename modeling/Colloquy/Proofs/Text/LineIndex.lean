import Colloquy.Proofs.Search
import Colloquy.Proofs.Text.Position
import Mathlib.Algebra.GroupWithZero.Nat

/-! # The line index agrees with the scan

A line index finds lines in a table; `Position.ofOffset` and `Position.toOffset` read the text from its
start. Both are followed line by line here. The table of a text is the table of the lines behind its first
one, moved by the length of that line, with a zero in front.

Spans hold 32-bit words, and building one clamps. In a text of fewer than 2^32 bytes nothing is clamped: a span
between two offsets of a stretch lies inside the stretch, and so does what is left of a line.
-/

namespace Colloquy

namespace LineIndex

open Bytes Position

theorem startsFrom_last {t : Bytes} (one : lf ∉ t) (pos : Nat) : startsFrom pos t = [] := by
  induction t generalizing pos with
  | nil => rfl
  | cons b rest ih =>
      have other : ¬ b = lf := fun same => one (same ▸ List.mem_cons_self)
      rw [startsFrom, if_neg (by simpa using other)]
      exact ih (fun member => one (List.mem_cons_of_mem b member)) (pos + 1)

theorem startsFrom_behind_line {line : Bytes} (one : lf ∉ line) (rest : Bytes) (pos : Nat) :
    startsFrom pos (line ++ lf :: rest) =
      (pos + line.length + 1) :: startsFrom (pos + line.length + 1) rest := by
  induction line generalizing pos with
  | nil => simp [startsFrom]
  | cons b more ih =>
      have other : ¬ b = lf := fun same => one (same ▸ List.mem_cons_self)
      rw [List.cons_append, startsFrom, if_neg (by simpa using other),
        ih (fun member => one (List.mem_cons_of_mem b member)), List.length_cons,
        show pos + 1 + more.length = pos + (more.length + 1) by omega]

theorem startsFrom_add (pos d : Nat) (t : Bytes) :
    startsFrom (d + pos) t = (startsFrom pos t).map (d + ·) := by
  induction t generalizing pos with
  | nil => rfl
  | cons b rest ih =>
      simp only [startsFrom, Nat.add_assoc, ih (pos + 1)]
      split <;> rfl

@[simp] theorem text_ofText (t : Bytes) : (ofText t).text = t := rfl

theorem starts_last {t : Bytes} (one : lf ∉ t) : (ofText t).starts = [0] := by
  rw [ofText, startsFrom_last one]

/-- The table of the other lines, moved behind the first line. -/
theorem starts_behind_line {line : Bytes} (one : lf ∉ line) (rest : Bytes) :
    (ofText (line ++ lf :: rest)).starts = 0 :: (ofText rest).starts.map (line.length + 1 + ·) := by
  have moved := startsFrom_add 0 (line.length + 1) rest
  simp only [ofText, startsFrom_behind_line one rest 0, List.map_cons, Nat.zero_add, Nat.add_zero] at moved ⊢
  rw [moved]

theorem starts_sorted (t : Bytes) : (ofText t).starts.Pairwise (· < ·) := by
  induction t using lineInduction with
  | last t one => simp [starts_last one]
  | more line rest one ih =>
      rw [starts_behind_line one, List.pairwise_cons]
      refine ⟨?_, ih.map _ fun _ _ lt => Nat.add_lt_add_left lt _⟩
      intro start member
      obtain ⟨s, _, rfl⟩ := List.mem_map.mp member
      omega

theorem starts_le (t : Bytes) : ∀ s ∈ (ofText t).starts, s ≤ t.length := by
  induction t using lineInduction with
  | last t one => simp [starts_last one]
  | more line rest one ih =>
      intro s member
      rw [starts_behind_line one] at member
      cases member with
      | head => exact Nat.zero_le _
      | tail _ behind =>
          obtain ⟨s, own, rfl⟩ := List.mem_map.mp behind
          have le := ih s own
          rw [List.length_append, List.length_cons]
          omega

theorem lineCount_last {t : Bytes} (one : lf ∉ t) : (ofText t).lineCount = 1 := by
  rw [lineCount, starts_last one, List.length_singleton]

theorem lineCount_behind_line {line : Bytes} (one : lf ∉ line) (rest : Bytes) :
    (ofText (line ++ lf :: rest)).lineCount = (ofText rest).lineCount + 1 := by
  rw [lineCount, starts_behind_line one, List.length_cons, List.length_map, lineCount]

theorem lineStart_natCast (t : Bytes) (k : Nat) : (ofText t).lineStart k = (ofText t).starts[k]?.getD t.length := by
  cases k with
  | zero => rfl
  | succ k => rw [lineStart, if_neg (by omega), Int.toNat_natCast, text_ofText, List.getD_eq_getElem?_getD]

theorem lineStart_of_nonpos (ix : LineIndex) {line : Int} (nonpos : line ≤ 0) : ix.lineStart line = 0 := if_pos nonpos

theorem lineStart_le (t : Bytes) (line : Int) : (ofText t).lineStart line ≤ t.length := by
  obtain ⟨k, rfl⟩ | nonpos : (∃ k : Nat, line = k) ∨ line ≤ 0 :=
    (Int.le_total 0 line).imp Int.eq_ofNat_of_zero_le id
  · rw [lineStart_natCast]
    cases here : (ofText t).starts[k]? with
    | none => exact Nat.le_refl _
    | some start => exact starts_le t start (List.mem_of_getElem? here)
  · rw [lineStart_of_nonpos _ nonpos]
    exact Nat.zero_le _

/-- The line that holds an offset is the one that starts at or before it while the next starts behind. -/
theorem lineOf_eq {ix : LineIndex} (sorted : ix.starts.Pairwise (· < ·)) {n k start : Nat}
    (here : ix.starts[k]? = some start) (reached : start ≤ n)
    (next : ∀ s, ix.starts[k + 1]? = some s → n < s) : ix.lineOf n = k := by
  obtain ⟨inside, rfl⟩ := List.getElem?_eq_some_iff.mp here
  have ordered := List.pairwise_iff_getElem.mp sorted
  have found : bisect (fun i => decide (ix.starts.toArray.getD i 0 > n)) 0 ix.starts.toArray.size = k + 1 := by
    apply bisect_eq 0 _ (Nat.zero_le _) (by simpa using Nat.succ_le_of_lt inside)
    · intro i _ lt
      have bound : i < ix.starts.length := by omega
      have le : ix.starts[i] ≤ ix.starts[k] := by
        obtain rfl | lt := Nat.eq_or_lt_of_le (Nat.le_of_lt_succ lt)
        · exact Nat.le_refl _
        · exact Nat.le_of_lt (ordered i k bound inside lt)
      simp [bound]
      omega
    · intro i le lt
      have bound : i < ix.starts.length := by simpa using lt
      have behind := next ix.starts[k + 1] (List.getElem?_eq_getElem (by omega))
      have le : ix.starts[k + 1] ≤ ix.starts[i] := by
        obtain rfl | lt := Nat.eq_or_lt_of_le le
        · exact Nat.le_refl _
        · exact Nat.le_of_lt (ordered (k + 1) i (by omega) bound lt)
      simp [bound]
      omega
  rw [lineOf, found, Nat.add_sub_cancel]

/-- The scan arrives on the last line that starts at or before the offset, and counts from there. -/
theorem ofOffset_eq_countUnits (t : Bytes) {n : Nat} (inside : n ≤ t.length) :
    ∃ k start : Nat, (ofText t).starts[k]? = some start ∧ start ≤ n ∧
      (∀ s, (ofText t).starts[k + 1]? = some s → n < s) ∧
      Position.ofOffset t n = ⟨k, (countUnits 0 (n - start) (t.drop start) : Nat)⟩ := by
  induction t using lineInduction generalizing n with
  | last t one =>
      refine ⟨0, 0, by simp [starts_last one], Nat.zero_le n, by simp [starts_last one], ?_⟩
      simpa using ofOffset_last one inside
  | more line rest one ih =>
      by_cases first : n ≤ line.length
      · refine ⟨0, 0, by simp [starts_behind_line one], Nat.zero_le n, ?_, ?_⟩
        · intro s hs
          have second : line.length + 1 + 0 = s := by
            simpa [starts_behind_line one, show (ofText rest).starts[0]? = some 0 from rfl] using hs
          omega
        · rw [List.drop_zero, Nat.sub_zero, countUnits_line (by simp) first]
          exact ofOffset_line one (by simp) first
      · obtain ⟨m, rfl⟩ := Nat.exists_eq_add_of_le (Nat.succ_le_of_lt (Nat.not_le.mp first))
        rw [List.length_append, List.length_cons] at inside
        obtain ⟨k, start, here, reached, next, found⟩ := ih (n := m) (by omega)
        refine ⟨k + 1, line.length + 1 + start, ?_, by omega, ?_, ?_⟩
        · simp [starts_behind_line one, here]
        · intro s hs
          simp only [starts_behind_line one, List.getElem?_cons_succ, List.getElem?_map,
            Option.map_eq_some_iff] at hs
          obtain ⟨s', hs', rfl⟩ := hs
          have := next s' hs'
          omega
        · rw [Nat.succ_eq_add_one, ofOffset_behind_line one, found, drop_behind_line]
          simp [Nat.add_sub_add_left]

theorem position_eq_ofOffset (t : Bytes) (offset : Int) :
    (ofText t).position offset = Position.ofOffset t offset := by
  rw [ofOffset_clamp]
  obtain ⟨k, start, here, reached, next, found⟩ :=
    ofOffset_eq_countUnits t (Nat.min_le_right offset.toNat t.length)
  have line : (ofText t).lineOf (min offset.toNat t.length) = k :=
    lineOf_eq (starts_sorted t) here reached next
  have table : (ofText t).starts.getD k 0 = start := by simp [here]
  rw [found, position]
  simp only [text_ofText, line, table]

theorem lineEnd_first {line tail : Bytes} (one : lf ∉ line) (fresh : ∀ b ∈ tail.head?, b = lf) :
    (ofText (line ++ tail)).lineEnd 0 = line.length := by
  cases tail with
  | nil => simp [lineEnd, starts_last one]
  | cons b rest =>
      obtain rfl := fresh b (by simp)
      simp [lineEnd, starts_behind_line one, show (ofText rest).starts[0]? = some 0 from rfl]

theorem lineEnd_behind_line {line : Bytes} (one : lf ∉ line) (rest : Bytes) (k : Nat) :
    (ofText (line ++ lf :: rest)).lineEnd (k + 1) = line.length + 1 + (ofText rest).lineEnd k := by
  simp only [lineEnd, starts_behind_line one, List.getElem?_cons_succ, List.getElem?_map]
  cases next : (ofText rest).starts[k + 1]? with
  | none =>
      simp only [Option.map_none, text_ofText, List.length_append, List.length_cons]
      omega
  | some s =>
      obtain ⟨inside, rfl⟩ := List.getElem?_eq_some_iff.mp next
      have positive := List.pairwise_iff_getElem.mp (starts_sorted rest) 0 (k + 1) (by omega) inside (by omega)
      simp only [Option.map_some]
      omega

theorem offset_of_negative (ix : LineIndex) {p : Position} (h : p.line < 0 ∨ p.character < 0) :
    ix.offset p = 0 := by
  rw [offset, if_pos ((negative_iff p).mpr h)]

theorem offset_of_nonneg (ix : LineIndex) {p : Position} (hl : 0 ≤ p.line) (hc : 0 ≤ p.character) :
    ix.offset p = ix.starts[p.line.toNat]?.elim ix.text.length fun start =>
      start + advance p.character.toNat 0 (ix.text.slice start (ix.lineEnd p.line.toNat)) := by
  rw [offset, if_neg (not_negative hl hc)]
  cases ix.starts[p.line.toNat]? <;> rfl

theorem offset_first {line tail : Bytes} (one : lf ∉ line) (fresh : ∀ b ∈ tail.head?, b = lf)
    {c : Int} (hc : 0 ≤ c) : (ofText (line ++ tail)).offset ⟨0, c⟩ = advance c.toNat 0 line := by
  rw [offset_of_nonneg _ (Int.le_refl 0) hc, Int.toNat_zero, lineEnd_first one fresh]
  simp [slice, show (ofText (line ++ tail)).starts[0]? = some 0 from rfl]

theorem offset_last {t : Bytes} (one : lf ∉ t) {c : Int} (hc : 0 ≤ c) :
    (ofText t).offset ⟨0, c⟩ = advance c.toNat 0 t := by
  have first := offset_first one fresh_nil hc
  rw [List.append_nil] at first
  exact first

theorem offset_below {line : Bytes} (one : lf ∉ line) (rest : Bytes) {p : Position} (hl : 0 ≤ p.line)
    (hc : 0 ≤ p.character) :
    (ofText (line ++ lf :: rest)).offset ⟨p.line + 1, p.character⟩ =
      line.length + 1 + (ofText rest).offset p := by
  have number : (p.line + 1).toNat = p.line.toNat + 1 := by omega
  rw [offset_of_nonneg _ hl hc, offset_of_nonneg (p := ⟨p.line + 1, p.character⟩) _ (Int.le_add_one hl) hc,
    number, lineEnd_behind_line one, starts_behind_line one, List.getElem?_cons_succ, List.getElem?_map]
  cases (ofText rest).starts[p.line.toNat]? with
  | none =>
      simp only [Option.map_none, Option.elim_none, text_ofText, List.length_append, List.length_cons]
      omega
  | some start =>
      have same : slice (line ++ lf :: rest) (line.length + 1 + start)
            (line.length + 1 + (ofText rest).lineEnd p.line.toNat) =
          slice rest start ((ofText rest).lineEnd p.line.toNat) := by
        rw [slice, slice, drop_behind_line, Nat.add_sub_add_left]
      simp only [Option.map_some, Option.elim_some, text_ofText, same]
      omega

theorem offset_past {t : Bytes} (one : lf ∉ t) {p : Position} (hl : 0 ≤ p.line)
    (hc : 0 ≤ p.character) : (ofText t).offset ⟨p.line + 1, p.character⟩ = t.length := by
  have number : (p.line + 1).toNat = p.line.toNat + 1 := by omega
  rw [offset_of_nonneg (p := ⟨p.line + 1, p.character⟩) _ (Int.le_add_one hl) hc, number, starts_last one]
  rfl

theorem offset_eq_toOffset (t : Bytes) (p : Position) : (ofText t).offset p = p.toOffset t := by
  induction t, p using aboveInduction with
  | negative t p h => rw [offset_of_negative _ h, toOffset_of_negative t h]
  | last t c one hc => rw [offset_last one hc, toOffset_last one hc]
  | past t q one ql qc => rw [offset_past one ql qc, toOffset_past one ql qc]
  | first line rest c one hc => rw [offset_first one (by simp) hc, toOffset_first one (by simp) hc]
  | below line rest q one ql qc ih => rw [offset_below one rest ql qc, toOffset_below one rest ql qc, ih]

/-- The index gives the answers of the scan, for every offset and every position. -/
theorem index_agrees_with_scan (t : Bytes) :
    (∀ o : Int, (ofText t).position o = Position.ofOffset t o) ∧
      ∀ p : Position, (ofText t).offset p = p.toOffset t :=
  ⟨position_eq_ofOffset t, offset_eq_toOffset t⟩

end LineIndex

/-! ## Spans of a text -/

namespace Span

/-- The span is not reversed and lies between two offsets. -/
def Inside (lo hi : Nat) (s : Span) : Prop :=
  lo ≤ s.start.toNat ∧ s.start.toNat ≤ s.stop.toNat ∧ s.stop.toNat ≤ hi

theorem Inside.widen {lo hi lo' hi' : Nat} {s : Span} (inside : s.Inside lo hi) (left : lo' ≤ lo)
    (right : hi ≤ hi') : s.Inside lo' hi' := by
  obtain ⟨start, order, stop⟩ := inside
  exact ⟨Nat.le_trans left start, order, Nat.le_trans stop right⟩

/-- An offset that is no 32-bit word becomes the greatest one. -/
theorem toNat_clamp (n : Nat) : (clamp n).toNat = min n (2 ^ 32 - 1) := by
  rw [clamp, Int.toNat_natCast]
  exact UInt32.toNat_ofNat_of_lt (Nat.lt_of_le_of_lt (Nat.min_le_right n 0xFFFFFFFF) (by decide))

theorem toNat_clamp_of_lt {n : Nat} (short : n < 2 ^ 32) : (clamp n).toNat = n := by
  rw [toNat_clamp]
  omega

theorem start_of {a b : Nat} (short : b < 2 ^ 32) (le : a ≤ b) : (of a b).start.toNat = a := by
  have ordered : ¬ (b : Int) < a := by omega
  rw [of, if_neg ordered, toNat_clamp_of_lt (Nat.lt_of_le_of_lt le short)]

theorem inside_of {lo hi a b : Nat} (short : hi < 2 ^ 32) (left : lo ≤ a ∧ a ≤ hi) (right : lo ≤ b ∧ b ≤ hi) :
    (of a b).Inside lo hi := by
  have start := toNat_clamp_of_lt (Nat.lt_of_le_of_lt left.2 short)
  have stop := toNat_clamp_of_lt (Nat.lt_of_le_of_lt right.2 short)
  unfold of Inside
  split
  · rw [start, stop]
    omega
  · rw [start, stop]
    omega

theorem wrap64_eq {n : Nat} (short : n < 2 ^ 32) : wrap64 n = n := by
  unfold wrap64 wordCount
  rw [Int.bmod_def]
  omega

theorem inside_of_moved {lo hi n a b : Nat} (short : hi + n < 2 ^ 32) (left : lo ≤ a ∧ a ≤ hi)
    (right : lo ≤ b ∧ b ≤ hi) : (of (wrap64 (a + n)) (wrap64 (b + n))).Inside (lo + n) (hi + n) := by
  have start : wrap64 (a + n) = (a + n : Nat) := wrap64_eq (by omega)
  have stop : wrap64 (b + n) = (b + n : Nat) := wrap64_eq (by omega)
  rw [start, stop]
  exact inside_of short (by omega) (by omega)

theorem Inside.shift {lo hi n : Nat} {s : Span} (inside : s.Inside lo hi) (short : hi + n < 2 ^ 32) :
    (s.shift n).Inside (lo + n) (hi + n) := by
  obtain ⟨left, order, right⟩ := inside
  exact inside_of_moved short (by omega) (by omega)

theorem lineStop_bounds {t : Bytes} {offset : Nat} (le : offset ≤ t.length) :
    offset ≤ lineStop t offset ∧ lineStop t offset ≤ t.length := by
  have line := (List.takeWhile_prefix (l := t.drop offset) (· != Bytes.lf)).length_le
  rw [List.length_drop] at line
  unfold lineStop Position.lineOf
  simp only
  split
  · -- The line is not empty, for it ends in a carriage return.
    rename_i ended
    have some : 0 < ((t.drop offset).takeWhile (· != Bytes.lf)).length := by
      rw [List.length_pos_iff]
      intro empty
      simp [empty] at ended
    omega
  · omega

theorem inside_restOfLine {t : Bytes} {offset : Nat} (short : t.length < 2 ^ 32) (le : offset ≤ t.length) :
    (restOfLine t offset).Inside offset t.length := by
  have stop := lineStop_bounds le
  rw [restOfLine, Int.toNat_natCast, Nat.min_eq_left le]
  exact inside_of short ⟨Nat.le_refl _, le⟩ stop

end Span

end Colloquy
