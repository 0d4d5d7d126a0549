import Colloquy.Proofs.Text.RoundTrip
import Colloquy.Server.Change
import Mathlib.Algebra.GroupWithZero.Nat

/-! # Texts as editors hold them

An editor counts UTF-16 code units and knows nothing of bytes. This module says what a position and a
change mean on code units, and shows that `Position.toOffset` and `Change.apply` do the same on the bytes of
valid UTF-8. The byte offset of a position and its index among the code units cut the text at the same
place; that is what keeps later changes from drifting.
-/

namespace Colloquy

/-- A text in UTF-16 code units. -/
abbrev Units := List UInt16

namespace Units

/-- Line feed. -/
abbrev lf : UInt16 := 0x0A

/-- The first half of a surrogate pair. -/
def isHigh (u : UInt16) : Bool := 0xD800 ≤ u && u ≤ 0xDBFF

/-- The second half of a surrogate pair. -/
def isLow (u : UInt16) : Bool := 0xDC00 ≤ u && u ≤ 0xDFFF

/-- The code units of a code point. -/
def ofCode (code : Nat) : Units :=
  if 0xFFFF < code then
    [(0xD800 + (code - 0x10000) / 0x400).toUInt16, (0xDC00 + (code - 0x10000) % 0x400).toUInt16]
  else [code.toUInt16]

/-- The lines of a text. A line ends at a line feed only; there is always at least one. -/
def lines (u : Units) : List Units := u.splitOn lf

/-- Where a line starts. -/
def lineStart (u : Units) (line : Nat) : Nat := (((lines u).take line).map fun l => l.length + 1).sum

/-- An index between the halves of a surrogate pair goes back before the pair. -/
def settle (u : Units) (i : Nat) : Nat :=
  if 0 < i && u[i - 1]?.any isHigh && u[i]?.any isLow then i - 1 else i

/-- The index of a position. A negative line or character means the start, a line behind the last one the
    end, and a character behind the end of its line the end of the line. -/
def index (u : Units) (p : Position) : Nat :=
  if p.line < 0 || p.character < 0 then 0
  else match (lines u)[p.line.toNat]? with
    | none => u.length
    | some line => settle u (lineStart u p.line.toNat + min p.character.toNat line.length)

/-- Replace the units of a range, or all of them. A range that ends before it starts is empty. -/
def replace (u : Units) (range : Option Range) (new : Units) : Units :=
  match range with
  | none => new
  | some r => u.take (index u r.start) ++ new ++ u.drop (max (index u r.start) (index u r.stop))

/-! ## Code points -/

/-- A code point is a unit that is no surrogate, or a pair of surrogates. -/
inductive Scalar : Units → Prop where
  | single {u} : isHigh u = false → isLow u = false → Scalar [u]
  | pair {h l} : isHigh h = true → isLow l = true → Scalar [h, l]

theorem toNat_toUInt16 {n : Nat} (h : n < 65536) : n.toUInt16.toNat = n := by
  simp only [Nat.toUInt16, UInt16.toNat_ofNat', Nat.mod_eq_of_lt h]

theorem isHigh_iff (u : UInt16) : isHigh u = true ↔ 0xD800 ≤ u.toNat ∧ u.toNat ≤ 0xDBFF := by
  simp only [isHigh, Bool.and_eq_true, decide_eq_true_eq, UInt16.le_iff_toNat_le, UInt16.reduceToNat]

theorem isLow_iff (u : UInt16) : isLow u = true ↔ 0xDC00 ≤ u.toNat ∧ u.toNat ≤ 0xDFFF := by
  simp only [isLow, Bool.and_eq_true, decide_eq_true_eq, UInt16.le_iff_toNat_le, UInt16.reduceToNat]

theorem not_isHigh_of_isLow {u : UInt16} (h : isLow u = true) : isHigh u = false := by
  rw [isLow_iff] at h
  rw [Bool.eq_false_iff, ne_eq, isHigh_iff]
  omega

theorem scalar_ofCode {code : Nat} (plane : code < 0xD800 ∨ 0xDFFF < code) (le : code ≤ 0x10FFFF) :
    Scalar (ofCode code) := by
  unfold ofCode
  split
  · refine .pair ?_ ?_
    · rw [isHigh_iff, toNat_toUInt16 (by omega)]
      omega
    · rw [isLow_iff, toNat_toUInt16 (by omega)]
      omega
  · refine .single ?_ ?_
    · rw [Bool.eq_false_iff, ne_eq, isHigh_iff, toNat_toUInt16 (by omega)]
      omega
    · rw [Bool.eq_false_iff, ne_eq, isLow_iff, toNat_toUInt16 (by omega)]
      omega

theorem length_ofCode (code width : Nat) : (ofCode code).length = Rune.units ⟨code, width⟩ := by
  unfold ofCode Rune.units
  split <;> rfl

theorem eq_of_lf_mem_ofCode {code : Nat} (le : code ≤ 0x10FFFF) (h : lf ∈ ofCode code) : code = 0x0A := by
  unfold ofCode at h
  split at h
  · simp only [List.mem_cons, List.not_mem_nil, or_false, ← UInt16.toNat_inj] at h
    rw [toNat_toUInt16 (by omega), toNat_toUInt16 (by omega)] at h
    simp only [lf, UInt16.reduceToNat] at h
    omega
  · rw [List.mem_singleton, ← UInt16.toNat_inj, toNat_toUInt16 (by omega)] at h
    exact h.symm

/-! ## Surrogate pairs stay whole -/

@[simp] theorem settle_zero (u : Units) : settle u 0 = 0 := by simp [settle]

theorem settle_eq_self {u : Units} {i : Nat} (h : u[i]?.any isLow = false) : settle u i = i := by
  simp [settle, h]

/-- What stands behind an index matters only if it may be the second half of a pair. -/
theorem settle_append_left {u v : Units} {i : Nat} (inside : i ≤ u.length)
    (fresh : v[0]?.any isLow = false) : settle (u ++ v) i = settle u i := by
  obtain rfl | lt := Nat.eq_or_lt_of_le inside
  · have behind : (u ++ v)[u.length]? = v[0]? := by
      rw [List.getElem?_append_right (Nat.le_refl _), Nat.sub_self]
    rw [settle_eq_self (by rw [behind]; exact fresh), settle_eq_self (by simp)]
  · simp only [settle]
    rw [List.getElem?_append_left lt, List.getElem?_append_left (by omega)]

/-- What stands before an index matters only if it may be the first half of a pair. -/
theorem settle_append_right {u v : Units} (i : Nat) (fresh : u.getLast?.any isHigh = false) :
    settle (u ++ v) (u.length + i) = u.length + settle v i := by
  cases i with
  | zero =>
      rw [settle_zero, Nat.add_zero]
      by_cases empty : u.length = 0
      · rw [empty, settle_zero]
      · have last : (u ++ v)[u.length - 1]? = u.getLast? := by
          rw [List.getElem?_append_left (by omega), List.getLast?_eq_getElem?]
        simp [settle, last, fresh]
  | succ i =>
      have before : (u ++ v)[u.length + (i + 1) - 1]? = v[i]? := by
        rw [List.getElem?_append_right (by omega)]
        congr 1
        omega
      have here : (u ++ v)[u.length + (i + 1)]? = v[i + 1]? := by
        rw [List.getElem?_append_right (by omega), Nat.add_sub_cancel_left]
      simp only [settle, before, here, Nat.add_sub_cancel]
      split <;> split <;> simp_all

namespace Scalar

theorem last_not_high {u : Units} (h : Scalar u) : u.getLast?.any isHigh = false := by
  cases h with
  | single high _ => simpa using high
  | pair _ low => simpa using not_isHigh_of_isLow low

theorem settle_inside {u : Units} (h : Scalar u) (v : Units) {i : Nat} (inside : i < u.length) :
    settle (u ++ v) i = 0 := by
  cases h with
  | single _ _ =>
      obtain rfl : i = 0 := by simpa using inside
      exact settle_zero _
  | pair high low =>
      obtain rfl | rfl : i = 0 ∨ i = 1 := by
        simp only [List.length_cons, List.length_nil] at inside
        omega
      · exact settle_zero _
      · simp [settle, high, low]

end Scalar

/-! ## Positions, line by line -/

theorem lines_last {u : Units} (one : lf ∉ u) : lines u = [u] := List.splitOn_eq_singleton one

theorem lines_behind_line {u : Units} (one : lf ∉ u) (v : Units) : lines (u ++ lf :: v) = u :: lines v :=
  List.splitOn_append_cons_self_of_not_mem one v

theorem index_of_negative (u : Units) {p : Position} (h : p.line < 0 ∨ p.character < 0) : index u p = 0 := by
  rw [index, if_pos ((Position.negative_iff p).mpr h)]

theorem index_of_nonneg (u : Units) {p : Position} (hl : 0 ≤ p.line) (hc : 0 ≤ p.character) :
    index u p = (lines u)[p.line.toNat]?.elim u.length fun line =>
      settle u (lineStart u p.line.toNat + min p.character.toNat line.length) := by
  rw [index, if_neg (Position.not_negative hl hc)]
  cases (lines u)[p.line.toNat]? <;> rfl

theorem index_first {u v : Units} (one : lf ∉ u) (fresh : ∀ w ∈ v.head?, w = lf) {c : Int} (hc : 0 ≤ c) :
    index (u ++ v) ⟨0, c⟩ = settle u (min c.toNat u.length) := by
  have first : (lines (u ++ v))[0]? = some u := by
    cases v with
    | nil => rw [List.append_nil, lines_last one]; rfl
    | cons w v =>
        obtain rfl := fresh w (by simp)
        rw [lines_behind_line one]
        rfl
  have noLow : v[0]?.any isLow = false := by
    cases v with
    | nil => rfl
    | cons w v =>
        obtain rfl := fresh w (by simp)
        rfl
  rw [index_of_nonneg _ (Int.le_refl 0) hc, Int.toNat_zero, first, Option.elim_some, lineStart, List.take_zero,
    List.map_nil, List.sum_nil, Nat.zero_add, settle_append_left (Nat.min_le_right _ _) noLow]

theorem index_last {u : Units} (one : lf ∉ u) {c : Int} (hc : 0 ≤ c) :
    index u ⟨0, c⟩ = settle u (min c.toNat u.length) := by
  have none : ∀ w ∈ ([] : Units).head?, w = lf := by simp
  have first := index_first one none hc
  rw [List.append_nil] at first
  exact first

theorem index_below {u : Units} (one : lf ∉ u) (v : Units) {p : Position} (hl : 0 ≤ p.line)
    (hc : 0 ≤ p.character) :
    index (u ++ lf :: v) ⟨p.line + 1, p.character⟩ = u.length + 1 + index v p := by
  have number : (p.line + 1).toNat = p.line.toNat + 1 := by omega
  have noHigh : (u ++ [lf]).getLast?.any isHigh = false := by
    rw [List.getLast?_append]
    rfl
  have start : lineStart (u ++ lf :: v) (p.line.toNat + 1) = u.length + 1 + lineStart v p.line.toNat := by
    simp only [lineStart, lines_behind_line one, List.take_succ_cons, List.map_cons, List.sum_cons]
  have moved (i : Nat) : settle (u ++ lf :: v) (u.length + 1 + i) = u.length + 1 + settle v i := by
    simpa using settle_append_right (u := u ++ [lf]) (v := v) i noHigh
  rw [index_of_nonneg v hl hc, index_of_nonneg (p := ⟨p.line + 1, p.character⟩) _ (Int.le_add_one hl) hc,
    number, lines_behind_line one, List.getElem?_cons_succ, start]
  cases (lines v)[p.line.toNat]? with
  | none =>
      simp only [Option.elim_none, List.length_append, List.length_cons]
      omega
  | some line =>
      simp only [Option.elim_some]
      rw [Nat.add_assoc (u.length + 1), moved]

theorem index_past {u : Units} (one : lf ∉ u) {p : Position} (hl : 0 ≤ p.line) (hc : 0 ≤ p.character) :
    index u ⟨p.line + 1, p.character⟩ = u.length := by
  have number : (p.line + 1).toNat = p.line.toNat + 1 := by omega
  rw [index_of_nonneg (p := ⟨p.line + 1, p.character⟩) u (Int.le_add_one hl) hc, number, lines_last one]
  rfl

end Units

/-! ## Bytes and code units -/

namespace Bytes

/-- The code units of a text. -/
def utf16 (t : Bytes) : Units := t.codes.flatMap Units.ofCode

theorem utf16_cons {lead : UInt8} {more : Bytes} {code : Nat} (seq : Rune.Sequence lead more code)
    (tail : Bytes) : utf16 (lead :: (more ++ tail)) = Units.ofCode code ++ utf16 tail := by
  rw [utf16, codes, Spells.runes_cons seq, List.map_cons, List.flatMap_cons]
  rfl

theorem utf16_lf (tail : Bytes) : utf16 (lf :: tail) = Units.lf :: utf16 tail :=
  utf16_cons (Rune.Sequence.one (by decide)) tail

theorem utf16_append {t : Bytes} (valid : isUtf8 t = true) (u : Bytes) :
    utf16 (t ++ u) = utf16 t ++ utf16 u := by
  obtain ⟨cs, spelled⟩ : ∃ cs, Spells t cs := ⟨_, spells_codes valid⟩
  clear valid
  induction spelled with
  | nil => rfl
  | cons seq _ ih =>
      rw [List.cons_append, List.append_assoc, utf16_cons seq, utf16_cons seq, ih, List.append_assoc]

theorem isUtf8_append {t u : Bytes} (ht : isUtf8 t = true) (hu : isUtf8 u = true) :
    isUtf8 (t ++ u) = true :=
  ((spells_codes ht).append (spells_codes hu)).isUtf8

theorem utf16_boundary {t : Bytes} {n : Nat} (h : Boundary t n) :
    utf16 t = utf16 (t.take n) ++ utf16 (t.drop n) := by
  rw [utf16, codes, runes_boundary h, List.map_append, List.flatMap_append]
  rfl

theorem lf_not_mem_utf16 {line : Bytes} (valid : isUtf8 line = true) (one : lf ∉ line) :
    Units.lf ∉ utf16 line := by
  obtain ⟨cs, spelled⟩ : ∃ cs, Spells line cs := ⟨_, spells_codes valid⟩
  clear valid
  induction spelled with
  | nil => simp [utf16, codes, runes, runesFrom]
  | @cons lead more code tail codes seq _ ih =>
      rw [utf16_cons seq, List.mem_append]
      rintro (here | behind)
      · have isLf := Units.eq_of_lf_mem_ofCode seq.scalar.2.1 here
        have same : lead = lf := UInt8.toNat_inj.mp ((seq.lead_eq (by omega)).trans isLf)
        exact one (same ▸ List.mem_cons_self)
      · exact ih (fun member => one (by simp [member])) behind

/-- Valid UTF-8 falls apart at a line feed, and so do its code units. -/
theorem utf16_line {line rest : Bytes} (valid : isUtf8 (line ++ lf :: rest) = true) :
    isUtf8 line = true ∧ isUtf8 rest = true ∧
      utf16 (line ++ lf :: rest) = utf16 line ++ Units.lf :: utf16 rest := by
  have stop : Boundary (line ++ lf :: rest) line.length :=
    (boundary_line (by simp) (Nat.le_refl _)).mpr (boundary_length line)
  have first := (isUtf8_boundary valid stop).1
  have others := (isUtf8_boundary valid (boundary_behind_line (n := 0).mpr .zero)).2
  rw [List.take_left] at first
  rw [drop_behind_line, List.drop_zero] at others
  refine ⟨first, others, ?_⟩
  rw [utf16_append first, utf16_lf]

theorem length_utf16_take_le {t : Bytes} {i j : Nat} (hi : Boundary t i) (hj : Boundary t j) (le : i ≤ j) :
    (utf16 (t.take i)).length ≤ (utf16 (t.take j)).length := by
  have atI := congrArg List.length (utf16_boundary hi)
  have atJ := congrArg List.length (utf16_boundary hj)
  have between := congrArg List.length (utf16_boundary (hi.sub hj le))
  rw [List.drop_drop, Nat.add_sub_cancel' le] at between
  simp only [List.length_append] at atI atJ between
  omega

end Bytes

namespace Position

open Bytes

theorem boundary_advance (want : Nat) (line : Bytes) : Boundary line (advance want 0 line) := by
  induction line using runeInduction generalizing want with
  | nil => exact .zero
  | cons b rest ih =>
      rw [advance_cons]
      split
      · exact boundary_cons.mpr (.inr ⟨_, rfl, ih _⟩)
      · exact .zero

theorem boundary_toOffset (t : Bytes) (p : Position) : Boundary t (p.toOffset t) := by
  induction t, p using aboveInduction with
  | negative t p h =>
      rw [toOffset_of_negative t h]
      exact .zero
  | last t c one hc =>
      rw [toOffset_last one hc]
      exact boundary_advance _ t
  | past t q one ql qc =>
      rw [toOffset_past one ql qc]
      exact boundary_length t
  | first line rest c one hc =>
      rw [toOffset_first one (by simp) hc]
      exact (boundary_line (by simp) (advance_le_length _ line)).mpr (boundary_advance _ line)
  | below line rest q one ql qc ih =>
      rw [toOffset_below one rest ql qc]
      exact boundary_behind_line.mpr ih

/-- Advancing over bytes stops where the editor's index stops. -/
theorem length_utf16_advance {t : Bytes} (valid : isUtf8 t = true) (want : Nat) :
    (utf16 (t.take (advance want 0 t))).length = Units.settle (utf16 t) (min want (utf16 t).length) := by
  obtain ⟨cs, spelled⟩ : ∃ cs, Spells t cs := ⟨_, spells_codes valid⟩
  clear valid
  induction spelled generalizing want with
  | nil => simp [advance, utf16, codes, runes, runesFrom]
  | @cons lead more code tail codes seq _ ih =>
      have scalar := Units.scalar_ofCode seq.scalar.1 seq.scalar.2.1
      rw [advance_cons, seq.decode_append, ← Units.length_ofCode, utf16_cons seq]
      by_cases wanted : (Units.ofCode code).length ≤ want
      · obtain ⟨w, rfl⟩ := Nat.exists_eq_add_of_le wanted
        rw [if_pos wanted, List.drop_succ_cons, List.drop_left, Nat.add_sub_cancel_left, Nat.add_right_comm,
          List.take_succ_cons, List.take_length_add_append, utf16_cons seq, List.length_append, ih,
          List.length_append, Nat.add_min_add_left, Units.settle_append_right _ scalar.last_not_high]
      · rw [if_neg wanted, scalar.settle_inside _ (by rw [List.length_append]; omega)]
        rfl

/-- The offset of a position cuts the bytes where its index cuts the code units. -/
theorem length_utf16_toOffset {t : Bytes} (valid : isUtf8 t = true) (p : Position) :
    (utf16 (t.take (p.toOffset t))).length = Units.index (utf16 t) p := by
  induction t, p using aboveInduction with
  | negative t p h =>
      rw [toOffset_of_negative t h, Units.index_of_negative _ h]
      rfl
  | last t c one hc =>
      rw [toOffset_last one hc, Units.index_last (lf_not_mem_utf16 valid one) hc, length_utf16_advance valid]
  | past t q one ql qc =>
      rw [toOffset_past one ql qc, Units.index_past (lf_not_mem_utf16 valid one) ql qc, List.take_length]
  | first line rest c one hc =>
      obtain ⟨validLine, -, parts⟩ := utf16_line valid
      rw [parts, toOffset_first one (by simp) hc,
        Units.index_first (lf_not_mem_utf16 validLine one) (by simp) hc,
        List.take_append_of_le_length (advance_le_length _ line), length_utf16_advance validLine]
  | below line rest q one ql qc ih =>
      obtain ⟨validLine, validRest, parts⟩ := utf16_line valid
      rw [parts, toOffset_below one rest ql qc, Units.index_below (lf_not_mem_utf16 validLine one) _ ql qc,
        ← ih validRest, Nat.add_assoc, List.take_length_add_append, Nat.add_comm 1, List.take_succ_cons,
        utf16_append validLine, utf16_lf, List.length_append, List.length_cons, Nat.add_assoc, Nat.add_comm 1]

theorem utf16_take_toOffset {t : Bytes} (valid : isUtf8 t = true) (p : Position) :
    utf16 (t.take (p.toOffset t)) = (utf16 t).take (Units.index (utf16 t) p) := by
  rw [← length_utf16_toOffset valid p, utf16_boundary (boundary_toOffset t p), List.take_left]

theorem utf16_drop_toOffset {t : Bytes} (valid : isUtf8 t = true) (p : Position) :
    utf16 (t.drop (p.toOffset t)) = (utf16 t).drop (Units.index (utf16 t) p) := by
  rw [← length_utf16_toOffset valid p, utf16_boundary (boundary_toOffset t p), List.drop_left]

/-- Positions lie in the same order among bytes and among code units. -/
theorem max_toOffset {t : Bytes} (valid : isUtf8 t = true) (p q : Position) :
    (max (p.toOffset t) (q.toOffset t) = p.toOffset t ∧
      max (Units.index (utf16 t) p) (Units.index (utf16 t) q) = Units.index (utf16 t) p) ∨
    (max (p.toOffset t) (q.toOffset t) = q.toOffset t ∧
      max (Units.index (utf16 t) p) (Units.index (utf16 t) q) = Units.index (utf16 t) q) := by
  have forward := length_utf16_take_le (boundary_toOffset t p) (boundary_toOffset t q)
  have backward := length_utf16_take_le (boundary_toOffset t q) (boundary_toOffset t p)
  rw [length_utf16_toOffset valid, length_utf16_toOffset valid] at forward backward
  omega

end Position

namespace Change

open Bytes

/-- A change of valid UTF-8 is a replacement of code units, and leaves valid UTF-8. -/
theorem utf16_apply {t : Bytes} {c : Change} (valid : isUtf8 t = true) (new : isUtf8 c.text = true) :
    isUtf8 (apply t c) = true ∧ utf16 (apply t c) = (utf16 t).replace c.range (utf16 c.text) := by
  obtain ⟨range, text⟩ := c
  cases range with
  | none => exact ⟨new, rfl⟩
  | some r =>
      have head := (isUtf8_boundary valid (Position.boundary_toOffset t r.start)).1
      have start := Position.utf16_take_toOffset valid r.start
      obtain ⟨stop, hstop, hindex⟩ : ∃ stop : Position, max (r.start.toOffset t) (r.stop.toOffset t) =
          stop.toOffset t ∧ max (Units.index (utf16 t) r.start) (Units.index (utf16 t) r.stop) =
            Units.index (utf16 t) stop := by
        obtain same | same := Position.max_toOffset valid r.start r.stop
        · exact ⟨r.start, same⟩
        · exact ⟨r.stop, same⟩
      have tail := (isUtf8_boundary valid (Position.boundary_toOffset t stop)).2
      have behind := Position.utf16_drop_toOffset valid stop
      have front := isUtf8_append head new
      simp only [apply, Units.replace, hstop, hindex]
      exact ⟨isUtf8_append front tail, by rw [utf16_append front, utf16_append head, start, behind]⟩

/-- Changes one after the other, in bytes and in code units. -/
theorem utf16_applyAll {t : Bytes} {cs : List Change} (valid : isUtf8 t = true)
    (new : ∀ c ∈ cs, isUtf8 c.text = true) :
    isUtf8 (applyAll t cs) = true ∧
      utf16 (applyAll t cs) = cs.foldl (fun u c => u.replace c.range (utf16 c.text)) (utf16 t) := by
  induction cs generalizing t with
  | nil => exact ⟨valid, rfl⟩
  | cons c cs ih =>
      obtain ⟨next, units⟩ := utf16_apply valid (new c List.mem_cons_self)
      have rest := ih next fun d member => new d (List.mem_cons_of_mem c member)
      rw [units] at rest
      exact rest

end Change

end Colloquy
