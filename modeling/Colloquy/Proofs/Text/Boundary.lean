import Colloquy.Proofs.Text.Rune
import Mathlib.Order.Bounds.Defs

/-! # Rune boundaries

The offsets of a text at which no rune is cut: those reached by reading rune after rune from the start,
whatever the bytes are. A line feed is always a rune of its own, so the boundaries of a text are those of
its first line followed by those of the other lines. This is what lets a scan start at any line.
-/

namespace Colloquy.Bytes

/-- An offset reached by reading the text rune by rune from its start. -/
inductive Boundary (t : Bytes) : Nat → Prop where
  | zero : Boundary t 0
  | next {i b rest} : Boundary t i → t.drop i = b :: rest →
      Boundary t (i + (Rune.decode b rest).width)

/-- The greatest boundary of `t` up to the offset `n` is `m`. -/
def IsFloor (t : Bytes) (n m : Nat) : Prop := IsGreatest {b | Boundary t b ∧ b ≤ n} m

theorem isFloor_unique {t : Bytes} {n m m' : Nat} (h : IsFloor t n m) (h' : IsFloor t n m') : m = m' :=
  Nat.le_antisymm (h'.2 h.1) (h.2 h'.1)

theorem Boundary.isFloor {t : Bytes} {n : Nat} (h : Boundary t n) : IsFloor t n n :=
  ⟨⟨h, Nat.le_refl n⟩, fun _ other => other.2⟩

theorem IsFloor.eq_left_iff {t : Bytes} {n m k : Nat} (floor : IsFloor t (min n m) k) (boundary : Boundary t n) :
    k = n ↔ n ≤ m := by
  constructor
  · rintro rfl
    exact Nat.le_trans floor.1.2 (Nat.min_le_right ..)
  · intro le
    rw [Nat.min_eq_left le] at floor
    exact isFloor_unique floor boundary.isFloor

theorem Boundary.le_length {t : Bytes} {n : Nat} (h : Boundary t n) : n ≤ t.length := by
  induction h with
  | zero => exact Nat.zero_le _
  | @next i b rest _ here ih =>
      have width := Rune.width_le b rest
      have length := congrArg List.length here
      simp only [List.length_drop, List.length_cons] at length
      omega

@[simp] theorem boundary_nil {n : Nat} : Boundary [] n ↔ n = 0 :=
  ⟨fun h => Nat.le_zero.mp h.le_length, fun h => h ▸ .zero⟩

theorem Boundary.add {t : Bytes} {i j : Nat} (hi : Boundary t i) (hj : Boundary (t.drop i) j) :
    Boundary t (i + j) := by
  induction hj with
  | zero => exact hi
  | next _ here ih =>
      rw [List.drop_drop] at here
      rw [← Nat.add_assoc]
      exact .next ih here

/-- A boundary is one of every front that reaches so far. -/
theorem Boundary.take {t : Bytes} {n m : Nat} (h : Boundary t n) (inside : n ≤ m) : Boundary (t.take m) n := by
  induction h with
  | zero => exact .zero
  | @next i b rest _ here ih =>
      have pos := Rune.width_pos b rest
      obtain ⟨k, room⟩ : ∃ k, m - i = k + 1 := ⟨_, (Nat.sub_add_cancel (by omega)).symm⟩
      have front : (t.take m).drop i = b :: rest.take k := by rw [List.drop_take, here, room, List.take_succ_cons]
      rw [← Rune.decode_take b rest (k := k) (by omega)]
      exact .next (ih (by omega)) front

theorem boundary_cons {b : UInt8} {rest : Bytes} {n : Nat} :
    Boundary (b :: rest) n ↔ n = 0 ∨ ∃ m, n = (Rune.decode b rest).width + m ∧
      Boundary ((b :: rest).drop (Rune.decode b rest).width) m := by
  constructor
  · intro h
    induction h with
    | zero => exact .inl rfl
    | @next i c more _ here ih =>
        obtain rfl | ⟨m, rfl, hm⟩ := ih
        · obtain ⟨rfl, rfl⟩ := List.cons.inj here
          exact .inr ⟨0, by omega, .zero⟩
        · refine .inr ⟨m + (Rune.decode c more).width, by omega, .next hm ?_⟩
          rw [List.drop_drop]
          exact here
  · rintro (rfl | ⟨m, rfl, hm⟩)
    · exact .zero
    · have first : Boundary (b :: rest) (0 + (Rune.decode b rest).width) := .next .zero rfl
      rw [Nat.zero_add] at first
      exact first.add hm

theorem isFloor_zero_of_lt {b : UInt8} {rest : Bytes} {n : Nat} (h : n < (Rune.decode b rest).width) :
    IsFloor (b :: rest) n 0 := by
  refine ⟨⟨.zero, Nat.zero_le n⟩, ?_⟩
  rintro m ⟨boundary, le⟩
  obtain rfl | ⟨k, rfl, _⟩ := boundary_cons.mp boundary <;> omega

theorem IsFloor.cons {b : UInt8} {rest : Bytes} {n m : Nat} (h : (Rune.decode b rest).width ≤ n)
    (floor : IsFloor ((b :: rest).drop (Rune.decode b rest).width) (n - (Rune.decode b rest).width) m) :
    IsFloor (b :: rest) n ((Rune.decode b rest).width + m) := by
  refine ⟨⟨boundary_cons.mpr (.inr ⟨m, rfl, floor.1.1⟩), ?_⟩, ?_⟩
  · have := floor.1.2
    omega
  · rintro k ⟨boundary, le⟩
    obtain rfl | ⟨j, rfl, hj⟩ := boundary_cons.mp boundary
    · omega
    · have : j ≤ m := floor.2 ⟨hj, by omega⟩
      omega

theorem Boundary.sub {t : Bytes} {i j : Nat} (hi : Boundary t i) (hj : Boundary t j) (le : i ≤ j) :
    Boundary (t.drop i) (j - i) := by
  induction hi with
  | zero => exact hj
  | @next i b rest _ here ih =>
      have width := Rune.width_pos b rest
      have behind := ih (by omega)
      rw [here] at behind
      obtain same | ⟨m, hm, boundary⟩ := boundary_cons.mp behind
      · omega
      · rw [← here, List.drop_drop] at boundary
        rwa [show j - (i + (Rune.decode b rest).width) = m by omega]

/-- At a boundary the runes of a text fall into those before it and those behind it. -/
theorem runes_boundary {t : Bytes} {n : Nat} (h : Boundary t n) :
    runes t = runes (t.take n) ++ runes (t.drop n) := by
  induction t using runeInduction generalizing n with
  | nil => simp [runes, runesFrom]
  | cons b rest ih =>
      obtain rfl | ⟨m, rfl, hm⟩ := boundary_cons.mp h
      · simp [runes, runesFrom]
      · obtain ⟨w, hw⟩ : ∃ w, (Rune.decode b rest).width = w + 1 :=
          ⟨_, (Nat.sub_add_cancel (Rune.width_pos b rest)).symm⟩
        have same : Rune.decode b (rest.take (w + m)) = Rune.decode b rest :=
          Rune.decode_take b rest (by omega)
        rw [runes_cons, ih hm, hw, show w + 1 + m = w + m + 1 by omega, List.take_succ_cons, runes_cons, same,
          hw, List.drop_succ_cons, List.drop_succ_cons, List.drop_succ_cons, List.drop_take,
          Nat.add_sub_cancel_left, List.drop_drop, List.cons_append]

theorem isUtf8_boundary {t : Bytes} {n : Nat} (valid : isUtf8 t = true) (h : Boundary t n) :
    isUtf8 (t.take n) = true ∧ isUtf8 (t.drop n) = true := by
  rw [isUtf8, runes_boundary h, List.all_append, Bool.and_eq_true] at valid
  exact valid

theorem Spells.boundary {t : Bytes} {codes : List Nat} (spells : Spells t codes) (behind : Bytes) :
    Boundary (t ++ behind) t.length := by
  induction spells with
  | nil => exact .zero
  | @cons lead more code tail codes seq _ ih =>
      rw [List.cons_append, List.append_assoc]
      refine boundary_cons.mpr (.inr ⟨tail.length, ?_, ?_⟩)
      · rw [seq.decode_append, List.length_cons, List.length_append, Nat.add_right_comm]
      · rw [seq.decode_append, List.drop_succ_cons, List.drop_left]
        exact ih

/-- Where a front of a text is valid UTF-8, no rune is cut. -/
theorem boundary_of_isUtf8_take {t : Bytes} {n : Nat} (inside : n ≤ t.length) (valid : isUtf8 (t.take n) = true) :
    Boundary t n := by
  have front := (spells_codes valid).boundary (t.drop n)
  rwa [List.take_append_drop, List.length_take_of_le inside] at front

/-! There is always a greatest boundary, and it is near. -/

theorem exists_isFloor (t : Bytes) (n : Nat) : ∃ m, IsFloor t n m := by
  induction t using runeInduction generalizing n with
  | nil => exact ⟨0, ⟨.zero, Nat.zero_le n⟩, fun m other => Nat.le_of_eq (boundary_nil.mp other.1)⟩
  | cons b rest ih =>
      by_cases fits : (Rune.decode b rest).width ≤ n
      · obtain ⟨m, floor⟩ := ih (n - (Rune.decode b rest).width)
        exact ⟨_, floor.cons fits⟩
      · exact ⟨0, isFloor_zero_of_lt (Nat.not_le.mp fits)⟩

theorem IsFloor.lt_add_four {t : Bytes} {n m : Nat} (floor : IsFloor t n m) (inside : n ≤ t.length) : n < m + 4 := by
  by_cases last : m < t.length
  · have next := Boundary.next floor.1.1 (List.drop_eq_getElem_cons last)
    have some := Rune.width_pos t[m] (t.drop (m + 1))
    have width := Rune.width_le_four t[m] (t.drop (m + 1))
    by_cases reached : m + (Rune.decode t[m] (t.drop (m + 1))).width ≤ n
    · have le := floor.2 ⟨next, reached⟩
      omega
    · omega
  · omega

/-- The first rune of a line is the first rune of the text that the line starts. -/
theorem decode_line (b : UInt8) (rest : Bytes) {tail : Bytes} (fresh : ∀ c ∈ tail.head?, c = lf) :
    Rune.decode b (rest ++ tail) = Rune.decode b rest :=
  Rune.decode_append_of_isBreak b rest fun c hc => by
    rw [fresh c hc, Rune.IsBreak]
    decide

theorem drop_width_append (b : UInt8) (rest tail : Bytes) :
    ((b :: rest) ++ tail).drop (Rune.decode b rest).width =
      (b :: rest).drop (Rune.decode b rest).width ++ tail :=
  List.drop_append_of_le_length (Rune.width_le b rest)

/-- Up to its end, a line has the boundaries of the text that it starts. -/
theorem boundary_line {line tail : Bytes} (fresh : ∀ c ∈ tail.head?, c = lf) {n : Nat}
    (inside : n ≤ line.length) : Boundary (line ++ tail) n ↔ Boundary line n := by
  induction line using runeInduction generalizing n with
  | nil =>
      obtain rfl : n = 0 := Nat.le_zero.mp inside
      exact ⟨fun _ => .zero, fun _ => .zero⟩
  | cons b rest ih =>
      have width := Rune.width_le b rest
      rw [boundary_cons, List.cons_append, boundary_cons, decode_line b rest fresh, ← List.cons_append,
        drop_width_append]
      refine or_congr Iff.rfl (exists_congr fun m => and_congr_right fun hm => ?_)
      refine ih ?_
      simp only [List.length_drop, List.length_cons] at inside ⊢
      omega

/-- The end of a line is a boundary: no rune reaches over a line feed. -/
theorem boundary_length (t : Bytes) : Boundary t t.length := by
  induction t using runeInduction with
  | nil => exact .zero
  | cons b rest ih =>
      have width := Rune.width_le b rest
      refine boundary_cons.mpr (.inr ⟨_, ?_, ih⟩)
      simp only [List.length_drop, List.length_cons]
      omega

/-- An ASCII byte is a rune of its own, so no rune reaches over either side of it. -/
theorem boundary_ascii {t : Bytes} {i : Nat} {b : UInt8} (here : t[i]? = some b) (ascii : b < 0x80) :
    Boundary t i ∧ Boundary t (i + 1) := by
  have before : Boundary t i := by
    induction t using runeInduction generalizing i with
    | nil => simp at here
    | cons c rest ih =>
        cases i with
        | zero => exact .zero
        | succ i =>
            rw [List.getElem?_cons_succ] at here
            have fresh : ∀ b ∈ (rest.drop i).head?, Rune.IsBreak b := by
              intro b first
              rw [List.head?_drop, here, Option.mem_some_iff] at first
              exact first ▸ ascii
            have width := Rune.width_le c (rest.take i)
            rw [← Rune.decode_append_of_isBreak c _ fresh, List.take_append_drop, List.length_take] at width
            refine boundary_cons.mpr (.inr ⟨i + 1 - (Rune.decode c rest).width, by omega, ih ?_⟩)
            rw [List.getElem?_drop, Nat.add_sub_of_le (by omega), List.getElem?_cons_succ, here]
  obtain ⟨inside, rfl⟩ := List.getElem?_eq_some_iff.mp here
  have next := Boundary.next before (List.drop_eq_getElem_cons inside)
  rw [Rune.decode_ascii ascii] at next
  exact ⟨before, next⟩

theorem boundary_append {tail : Bytes} (ascii : ∀ b ∈ tail.head?, b < 0x80) (front : Bytes) :
    Boundary (front ++ tail) front.length := by
  cases tail with
  | nil =>
      rw [List.append_nil]
      exact boundary_length front
  | cons b tail => exact (boundary_ascii (by simp) (ascii b rfl)).1

theorem decode_lf (rest : Bytes) : Rune.decode lf rest = ⟨0x0A, 1⟩ :=
  Rune.decode_ascii (by decide) rest

theorem drop_behind_line (line rest : Bytes) (n : Nat) :
    (line ++ lf :: rest).drop (line.length + 1 + n) = rest.drop n := by
  rw [← List.drop_drop, ← List.drop_drop, List.drop_left, List.drop_one, List.tail_cons]

/-- Behind its first line, a text has the boundaries of the other lines. -/
theorem boundary_behind_line {line rest : Bytes} {n : Nat} :
    Boundary (line ++ lf :: rest) (line.length + 1 + n) ↔ Boundary rest n := by
  induction line using runeInduction generalizing n with
  | nil =>
      rw [List.nil_append, boundary_cons, decode_lf]
      constructor
      · rintro (h | ⟨m, h, hm⟩)
        · simp at h
        · obtain rfl : n = m := by simpa [Nat.add_comm] using h
          exact hm
      · exact fun h => .inr ⟨n, by simp [Nat.add_comm], h⟩
  | cons b more ih =>
      have width := Rune.width_le b more
      rw [List.cons_append, boundary_cons, decode_line b more (by simp), ← List.cons_append,
        drop_width_append, ← ih]
      simp only [List.length_drop, List.length_cons]
      constructor
      · rintro (h | ⟨m, h, hm⟩)
        · omega
        · have same : m = more.length + 1 - (Rune.decode b more).width + 1 + n := by omega
          exact same ▸ hm
      · exact fun h => .inr ⟨_, by omega, h⟩

theorem IsFloor.line {line tail : Bytes} {n m : Nat} (fresh : ∀ c ∈ tail.head?, c = lf)
    (inside : n ≤ line.length) (floor : IsFloor line n m) : IsFloor (line ++ tail) n m := by
  refine ⟨⟨(boundary_line fresh (Nat.le_trans floor.1.2 inside)).mpr floor.1.1, floor.1.2⟩, ?_⟩
  rintro k ⟨boundary, le⟩
  exact floor.2 ⟨(boundary_line fresh (Nat.le_trans le inside)).mp boundary, le⟩

theorem IsFloor.behind_line {line rest : Bytes} {n m : Nat} (floor : IsFloor rest n m) :
    IsFloor (line ++ lf :: rest) (line.length + 1 + n) (line.length + 1 + m) := by
  refine ⟨⟨boundary_behind_line.mpr floor.1.1, Nat.add_le_add_left floor.1.2 _⟩, ?_⟩
  rintro k ⟨boundary, le⟩
  by_cases behind : line.length + 1 ≤ k
  · obtain ⟨j, rfl⟩ := Nat.exists_eq_add_of_le behind
    have : j ≤ m := floor.2 ⟨boundary_behind_line.mp boundary, by omega⟩
    omega
  · omega

/-- Induction along the lines of a text: the last one, then the others from the end on. -/
@[elab_as_elim]
theorem lineInduction {motive : Bytes → Prop} (last : ∀ t, lf ∉ t → motive t)
    (more : ∀ line rest, lf ∉ line → motive rest → motive (line ++ lf :: rest)) (t : Bytes) : motive t := by
  by_cases h : lf ∈ t
  · obtain ⟨line, rest, whole, first⟩ := List.eq_append_cons_of_mem h
    have shorter : rest.length < t.length := by
      rw [whole, List.length_append, List.length_cons]
      omega
    rw [whole]
    exact more line rest first (lineInduction last more rest)
  · exact last t h
termination_by t.length

end Colloquy.Bytes
