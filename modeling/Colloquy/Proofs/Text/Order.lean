import Colloquy.Proofs.Text.RoundTrip

/-! # Positions keep the order of offsets

A later offset never has an earlier position, and of two offsets at which no rune is cut the later one has the later
position. In the other direction a later position never leads to an earlier offset. Within one line both are inductions
on its runes; over a text they go line by line, where a position below the first line is one of the other lines, moved
down. So a span that is not reversed has a range that is not reversed, and spans without a common byte have ranges
without a common position.
-/

namespace Colloquy

namespace Position

open Bytes LineIndex

variable {p q r : Position}

/-! ## The order of positions -/

theorem before_iff : p.before q = true ↔ p.line < q.line ∨ p.line = q.line ∧ p.character < q.character := by
  unfold before
  by_cases same : p.line = q.line
  · simp [same]
  · simp [same]

theorem not_before_iff : q.before p = false ↔ p.line < q.line ∨ p.line = q.line ∧ p.character ≤ q.character := by
  rw [← Bool.not_eq_true, before_iff]
  omega

theorem before_of_ne (notAfter : q.before p = false) (other : p ≠ q) : p.before q = true := by
  rw [before_iff]
  cases not_before_iff.mp notAfter with
  | inl lower => exact .inl lower
  | inr sameLine =>
      have differ : p.character ≠ q.character := by
        intro same
        cases p
        cases q
        exact other (by simp_all)
      exact .inr ⟨sameLine.1, by omega⟩

theorem before_trans (first : p.before q = true) (second : r.before q = false) : p.before r = true := by
  rw [before_iff] at first ⊢
  rw [not_before_iff] at second
  omega

/-! ## Within one line -/

/-- More bytes of a line hold no fewer units. -/
theorem countUnits_mono {m n : Nat} (le : m ≤ n) (line : Bytes) : countUnits 0 m line ≤ countUnits 0 n line := by
  induction line using runeInduction generalizing m n with
  | nil => simp
  | cons b rest ih =>
      rw [countUnits_cons, countUnits_cons]
      by_cases fits : (Rune.decode b rest).width ≤ m
      · have more := ih (Nat.sub_le_sub_right le (Rune.decode b rest).width)
        rw [if_pos fits, if_pos (Nat.le_trans fits le)]
        omega
      · rw [if_neg fits]
        exact Nat.zero_le _

/-- More units of a line take no fewer bytes. -/
theorem advance_mono {c d : Nat} (le : c ≤ d) (line : Bytes) : advance c 0 line ≤ advance d 0 line := by
  induction line using runeInduction generalizing c d with
  | nil => simp [advance]
  | cons b rest ih =>
      rw [advance_cons, advance_cons]
      by_cases wanted : (Rune.decode b rest).units ≤ c
      · have more := ih (Nat.sub_le_sub_right le (Rune.decode b rest).units)
        rw [if_pos wanted, if_pos (Nat.le_trans wanted le)]
        omega
      · rw [if_neg wanted]
        exact Nat.zero_le _

/-! ## Over all lines -/

theorem ofOffset_mono_inside {t : Bytes} {m n : Nat} (le : m ≤ n) (inside : n ≤ t.length) :
    (ofOffset t n).before (ofOffset t m) = false := by
  induction t using lineInduction generalizing m n with
  | last t one =>
      rw [ofOffset_last one inside, ofOffset_last one (Nat.le_trans le inside), not_before_iff]
      exact .inr ⟨rfl, Int.ofNat_le.mpr (countUnits_mono le t)⟩
  | more line rest one ih =>
      by_cases first : n ≤ line.length
      · rw [ofOffset_line one (by simp) first, ofOffset_line one (by simp) (Nat.le_trans le first), not_before_iff]
        exact .inr ⟨rfl, Int.ofNat_le.mpr (countUnits_mono le line)⟩
      · obtain ⟨n, rfl⟩ := Nat.exists_eq_add_of_le (Nat.succ_le_of_lt (Nat.not_le.mp first))
        rw [Nat.succ_eq_add_one, ofOffset_behind_line one n]
        by_cases first : m ≤ line.length
        · have lines := (ofOffset_nonneg rest n).1
          rw [ofOffset_line one (by simp) first, not_before_iff]
          exact .inl (Int.lt_add_one_of_le lines)
        · obtain ⟨m, rfl⟩ := Nat.exists_eq_add_of_le (Nat.succ_le_of_lt (Nat.not_le.mp first))
          rw [List.length_append, List.length_cons] at inside
          have behind := ih (m := m) (n := n) (by omega) (by omega)
          rw [not_before_iff] at behind
          rw [Nat.succ_eq_add_one, ofOffset_behind_line one m, not_before_iff]
          simp only
          omega

/-- A later offset has no earlier position, also where offsets lie outside the text. -/
theorem ofOffset_mono (t : Bytes) {o o' : Int} (le : o ≤ o') : (ofOffset t o').before (ofOffset t o) = false := by
  rw [ofOffset_clamp t o, ofOffset_clamp t o']
  apply ofOffset_mono_inside
  · omega
  · exact Nat.min_le_right _ _

/-- Boundaries come back from their positions, so different ones have different positions. -/
theorem ofOffset_lt {t : Bytes} {a b : Nat} (ha : Boundary t a) (hb : Boundary t b) (lt : a < b) :
    (ofOffset t a).before (ofOffset t b) = true := by
  apply before_of_ne (ofOffset_mono t (Int.ofNat_le.mpr (Nat.le_of_lt lt)))
  intro same
  have backA := isFloor_unique (isFloor_toOffset_ofOffset t ha.le_length) ha.isFloor
  have backB := isFloor_unique (isFloor_toOffset_ofOffset t hb.le_length) hb.isFloor
  rw [same, backB] at backA
  omega

theorem toOffset_mono (t : Bytes) (hp : 0 ≤ p.line ∧ 0 ≤ p.character) (hq : 0 ≤ q.line ∧ 0 ≤ q.character)
    (order : q.before p = false) : p.toOffset t ≤ q.toOffset t := by
  rw [not_before_iff] at order
  induction t using lineInduction generalizing p q with
  | last t one =>
      rcases first_or_below hp.1 hp.2 with ⟨c, hc, rfl⟩ | ⟨p', pl, pc, rfl⟩
      · rcases first_or_below hq.1 hq.2 with ⟨d, hd, rfl⟩ | ⟨q', ql, qc, rfl⟩
        · have wanted : c.toNat ≤ d.toNat := by
            simp only at order
            omega
          rw [toOffset_last one hc, toOffset_last one hd]
          exact advance_mono wanted t
        · rw [toOffset_last one hc, toOffset_past one ql qc]
          exact advance_le_length c.toNat t
      · rcases first_or_below hq.1 hq.2 with ⟨d, hd, rfl⟩ | ⟨q', ql, qc, rfl⟩
        · simp only at order
          omega
        · have same := (toOffset_past one pl pc).trans (toOffset_past one ql qc).symm
          exact Nat.le_of_eq same
  | more line rest one ih =>
      rcases first_or_below hp.1 hp.2 with ⟨c, hc, rfl⟩ | ⟨p', pl, pc, rfl⟩
      · rcases first_or_below hq.1 hq.2 with ⟨d, hd, rfl⟩ | ⟨q', ql, qc, rfl⟩
        · have wanted : c.toNat ≤ d.toNat := by
            simp only at order
            omega
          rw [toOffset_first one (by simp) hc, toOffset_first one (by simp) hd]
          exact advance_mono wanted line
        · have inside := advance_le_length c.toNat line
          rw [toOffset_first one (by simp) hc, toOffset_below one rest ql qc]
          omega
      · rcases first_or_below hq.1 hq.2 with ⟨d, hd, rfl⟩ | ⟨q', ql, qc, rfl⟩
        · simp only at order
          omega
        · have behind := ih ⟨pl, pc⟩ ⟨ql, qc⟩ (by simp only at order; omega)
          rw [toOffset_below one rest pl pc, toOffset_below one rest ql qc]
          omega

end Position

/-! ## Spans and ranges -/

namespace Span

/-- Whether the byte at an offset lies in the span. -/
def Holds (s : Span) (offset : Nat) : Prop := s.start.toNat ≤ offset ∧ offset < s.stop.toNat

end Span

namespace Range

/-- Whether a position lies in the range, whose end is excluded. -/
def Holds (r : Range) (p : Position) : Prop := p.before r.start = false ∧ p.before r.stop = true

/-- A range that ends where or before another starts has no position in common with it. -/
theorem not_holds {r u : Range} (apart : u.start.before r.stop = false) (p : Position) :
    ¬ (r.Holds p ∧ u.Holds p) := by
  rintro ⟨⟨-, inside⟩, ⟨outside, -⟩⟩
  have before := Position.before_trans inside apart
  rw [outside] at before
  cases before

end Range

namespace LineIndex

open Bytes Position

theorem range_ofText (t : Bytes) (s : Span) :
    (ofText t).range s = ⟨ofOffset t s.start.toNat, ofOffset t s.stop.toNat⟩ := by
  rw [range, position_eq_ofOffset, position_eq_ofOffset]

theorem range_ordered (t : Bytes) {s : Span} (ordered : s.start ≤ s.stop) :
    ((ofText t).range s).stop.before ((ofText t).range s).start = false := by
  rw [range_ofText]
  exact ofOffset_mono t (Int.ofNat_le.mpr (UInt32.le_iff_toNat_le.mp ordered))

theorem range_apart (t : Bytes) {s u : Span} (apart : s.stop ≤ u.start) :
    ((ofText t).range u).start.before ((ofText t).range s).stop = false := by
  rw [range_ofText, range_ofText]
  exact ofOffset_mono t (Int.ofNat_le.mpr (UInt32.le_iff_toNat_le.mp apart))

/-- Of two spans without a common byte one ends where the other starts or before, or one of them is empty and has an
empty range. -/
theorem range_disjoint (t : Bytes) {s u : Span} (disjoint : ∀ o, ¬ (s.Holds o ∧ u.Holds o)) (p : Position) :
    ¬ (((ofText t).range s).Holds p ∧ ((ofText t).range u).Holds p) := by
  have empty : ∀ v : Span, v.stop ≤ v.start → ¬ ((ofText t).range v).Holds p := fun v reversed inside =>
    Range.not_holds (range_apart t reversed) p ⟨inside, inside⟩
  by_cases emptyS : s.stop ≤ s.start
  · exact fun both => empty s emptyS both.1
  by_cases emptyU : u.stop ≤ u.start
  · exact fun both => empty u emptyU both.2
  by_cases first : s.stop ≤ u.start
  · exact Range.not_holds (range_apart t first) p
  by_cases second : u.stop ≤ s.start
  · exact fun both => Range.not_holds (range_apart t second) p both.symm
  · -- otherwise the later of the two starts lies in both
    exfalso
    apply disjoint (max s.start.toNat u.start.toNat)
    simp only [UInt32.le_iff_toNat_le] at emptyS emptyU first second
    unfold Span.Holds
    omega

/-- Order is kept from offsets to positions and back, whatever the bytes are: offsets at which no rune is cut stay
apart, and positions that clients send lead to offsets in their order. So spans in order have ranges in order, a span
that is not reversed has a range that is not reversed, and no position lies in the ranges of two spans that have no
byte in common. -/
theorem order_kept (t : Bytes) :
    (∀ o o' : Int, o ≤ o' → (ofOffset t o').before (ofOffset t o) = false) ∧
    (∀ a b, Boundary t a → Boundary t b → a < b → (ofOffset t a).before (ofOffset t b) = true) ∧
    (∀ p q : Position, 0 ≤ p.line ∧ 0 ≤ p.character → 0 ≤ q.line ∧ 0 ≤ q.character → q.before p = false →
      p.toOffset t ≤ q.toOffset t) ∧
    (∀ s : Span, s.start ≤ s.stop → ((ofText t).range s).stop.before ((ofText t).range s).start = false) ∧
    (∀ s u : Span, s.stop ≤ u.start → ((ofText t).range u).start.before ((ofText t).range s).stop = false) ∧
    ∀ s u : Span, (∀ o, ¬ (s.Holds o ∧ u.Holds o)) →
      ∀ p, ¬ (((ofText t).range s).Holds p ∧ ((ofText t).range u).Holds p) := by
  refine ⟨fun o o' => ofOffset_mono t, fun a b => ofOffset_lt, fun p q => toOffset_mono t, fun s => range_ordered t,
    fun s u => range_apart t, fun s u => range_disjoint t⟩

/-- The offset between a carriage return and a line feed, positions past the end of a line and past the last line, and
the spans of the two bytes of a line break. -/
theorem order_kept_line_break :
    let t : Bytes := [0x61, cr, lf, 0x80]
    (ofOffset t 1).before (ofOffset t 2) = true ∧ (ofOffset t 2).before (ofOffset t 3) = true ∧
    (ofOffset t 9).before (ofOffset t 3) = false ∧
    toOffset t ⟨0, 7⟩ ≤ toOffset t ⟨1, 0⟩ ∧ toOffset t ⟨1, 5⟩ ≤ toOffset t ⟨8, 0⟩ ∧
    ((ofText t).range ⟨2, 3⟩).stop.before ((ofText t).range ⟨2, 3⟩).start = false ∧
    ((ofText t).range ⟨2, 3⟩).start.before ((ofText t).range ⟨1, 2⟩).stop = false ∧
    ¬ (((ofText t).range ⟨1, 2⟩).Holds ⟨0, 1⟩ ∧ ((ofText t).range ⟨2, 3⟩).Holds ⟨0, 1⟩) := by
  intro t
  obtain ⟨offsets, boundaries, positions, spans, apart, disjoint⟩ := order_kept t
  have letter : Boundary t 1 := .next .zero rfl
  have between : Boundary t 2 := .next letter rfl
  have line : Boundary t 3 := .next between rfl
  refine ⟨boundaries 1 2 letter between (by decide), boundaries 2 3 between line (by decide),
    offsets 3 9 (by decide), positions ⟨0, 7⟩ ⟨1, 0⟩ (by decide) (by decide) (by decide),
    positions ⟨1, 5⟩ ⟨8, 0⟩ (by decide) (by decide) (by decide), spans ⟨2, 3⟩ (by decide),
    apart ⟨1, 2⟩ ⟨2, 3⟩ (by decide), disjoint ⟨1, 2⟩ ⟨2, 3⟩ ?_ ⟨0, 1⟩⟩
  rintro o ⟨⟨-, inside⟩, ⟨behind, -⟩⟩
  exact Nat.lt_irrefl _ (Nat.lt_of_lt_of_le inside behind)

end LineIndex

end Colloquy
