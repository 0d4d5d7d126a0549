import Colloquy.Proofs.Text.Boundary
import Colloquy.Proofs.Text.Bytes
import Colloquy.Text.Space
import Mathlib.Data.List.DropRight
import Mathlib.Tactic.NthRewrite

/-! # Trimming

Trimming drops runes at both ends of a text, so a trimmed text is left as it is. A text of ASCII bytes has one rune for
each byte, so there it means dropping bytes.
-/

namespace Colloquy.Bytes

def IsAscii (t : Bytes) : Prop := ∀ b ∈ t, b < 0x80

theorem runes_of_isAscii {t : Bytes} (ascii : IsAscii t) : runes t = t.map fun b => ⟨b.toNat, 1⟩ := by
  induction t with
  | nil => rfl
  | cons b rest ih =>
      have single := Rune.decode_ascii (ascii b List.mem_cons_self) rest
      rw [runes_cons, single, List.drop_one, List.tail_cons, ih fun c member => ascii c (List.mem_cons_of_mem _ member)]
      rfl

/-- What starts with a shown character is not blank. -/
theorem isBlank_cons {b : UInt8} (ascii : b < 0x80) (shown : isWhiteSpace b.toNat = false) (t : Bytes) :
    isBlank (b :: t) = false := by
  rw [isBlank, runes_cons, Rune.decode_ascii ascii, List.all_cons, shown, Bool.false_and]

theorem widthOf_singles (t : Bytes) : widthOf (t.map fun b => ⟨b.toNat, 1⟩) = t.length := by
  induction t with
  | nil => rfl
  | cons b rest ih =>
      rw [widthOf] at ih
      rw [List.map_cons, widthOf, List.map_cons, total, ih, List.length_cons]
      exact Nat.add_comm _ _

theorem trimStart_of_isAscii {t : Bytes} (ascii : IsAscii t) :
    trimStart t = t.dropWhile fun b => isWhiteSpace b.toNat := by
  rw [trimStart, runes_of_isAscii ascii, List.takeWhile_map, widthOf_singles]
  have halves := List.takeWhile_append_dropWhile (p := fun b : UInt8 => isWhiteSpace b.toNat) (l := t)
  nth_rewrite 2 [← halves]
  exact List.drop_left

theorem trimEnd_of_isAscii {t : Bytes} (ascii : IsAscii t) :
    trimEnd t = trimEndWhile t fun b => isWhiteSpace b.toNat := by
  rw [trimEnd, runes_of_isAscii ascii, ← List.map_reverse, List.dropWhile_map, widthOf_singles, trimEndWhile]
  have halves := List.takeWhile_append_dropWhile (p := fun b : UInt8 => isWhiteSpace b.toNat) (l := t.reverse)
  have whole := congrArg List.reverse halves
  rw [List.reverse_append, List.reverse_reverse] at whole
  nth_rewrite 2 [← whole]
  exact List.take_left' (List.length_reverse ..)

/-! ## Trimming drops runes -/

theorem widthOf_runes (t : Bytes) : widthOf (runes t) = t.length := by
  induction t using runeInduction with
  | nil => rfl
  | cons b rest ih =>
      have first := Rune.width_le b rest
      rw [widthOf, List.length_drop, List.length_cons] at ih
      rw [runes_cons, widthOf, List.map_cons, total, ih, List.length_cons]
      omega

/-- A text can be divided where its runes are. -/
theorem runes_divided {t : Bytes} {front back : List Rune} (same : runes t = front ++ back) :
    runes (t.take (widthOf front)) = front ∧ runes (t.drop (widthOf front)) = back := by
  have divided : Boundary t (widthOf front) ∧ runes (t.drop (widthOf front)) = back := by
    induction front generalizing t with
    | nil => exact ⟨.zero, same⟩
    | cons r front ih =>
        cases t with
        | nil => cases same
        | cons b rest =>
            rw [runes_cons, List.cons_append] at same
            obtain ⟨rfl, more⟩ := List.cons.inj same
            obtain ⟨boundary, behind⟩ := ih more
            refine ⟨boundary_cons.mpr (.inr ⟨_, rfl, boundary⟩), ?_⟩
            rw [List.drop_drop] at behind
            exact behind
  obtain ⟨boundary, behind⟩ := divided
  rw [runes_boundary boundary, behind] at same
  exact ⟨List.append_cancel_right same, behind⟩

theorem runes_trimStart (t : Bytes) : runes (trimStart t) = (runes t).dropWhile fun r => isWhiteSpace r.code :=
  (runes_divided List.takeWhile_append_dropWhile.symm).2

theorem runes_trimEnd (t : Bytes) : runes (trimEnd t) = (runes t).rdropWhile fun r => isWhiteSpace r.code := by
  have width : widthOf ((runes t).reverse.dropWhile fun r => isWhiteSpace r.code) =
      widthOf ((runes t).rdropWhile fun r => isWhiteSpace r.code) := by
    rw [List.rdropWhile, widthOf, widthOf, List.map_reverse, total_reverse]
  obtain ⟨back, whole⟩ := List.rdropWhile_prefix (fun r : Rune => isWhiteSpace r.code) (l := runes t)
  rw [trimEnd, width]
  exact (runes_divided whole.symm).1

theorem runes_trim (t : Bytes) : runes (trim t) =
    ((runes t).dropWhile fun r => isWhiteSpace r.code).rdropWhile fun r => isWhiteSpace r.code := by
  rw [trim, runes_trimEnd, runes_trimStart]

theorem isInfix_trim (t : Bytes) : trim t <:+: t :=
  (List.take_prefix _ _).isInfix.trans (List.drop_suffix _ _).isInfix

/-- A text from which no rune is trimmed is trimmed. -/
theorem eq_of_runes_trim {t : Bytes} (same : runes (trim t) = runes t) : trim t = t := by
  refine (isInfix_trim t).eq_of_length ?_
  rw [← widthOf_runes, same, widthOf_runes]

theorem trim_trim (t : Bytes) : trim (trim t) = trim t := by
  have start : ((runes (trim t)).dropWhile fun r => isWhiteSpace r.code) = runes (trim t) := by
    rw [runes_trim, List.dropWhile_eq_self_iff]
    intro some
    have kept := List.rdropWhile_prefix (fun r : Rune => isWhiteSpace r.code)
      (l := (runes t).dropWhile fun r => isWhiteSpace r.code)
    rw [kept.getElem some]
    exact List.dropWhile_eq_self_iff.mp (List.dropWhile_idempotent (fun r : Rune => isWhiteSpace r.code) _) _
  refine eq_of_runes_trim ?_
  rw [runes_trim, start, runes_trim, List.rdropWhile_idempotent]

/-- What begins with a trimmed text and goes on with a shown character is not trimmed to that text. -/
theorem trim_append_ne {t : Bytes} (trimmed : trim t = t) (some : t ≠ []) {b : UInt8} (ascii : b < 0x80)
    (shown : isWhiteSpace b.toNat = false) (rest : Bytes) : trim (t ++ b :: rest) ≠ t := by
  intro same
  have parts : runes (t ++ b :: rest) = runes t ++ ⟨b.toNat, 1⟩ :: runes rest := by
    have here : Boundary (t ++ b :: rest) t.length := boundary_append (by simpa using ascii) t
    rw [runes_boundary here, List.take_left, List.drop_left, runes_cons, Rune.decode_ascii ascii]
    rfl
  have first : ((runes t).dropWhile fun r => isWhiteSpace r.code) = runes t := by
    have own := congrArg List.length (runes_trim t)
    rw [trimmed] at own
    exact (List.dropWhile_suffix _).eq_of_length_le (own ▸ (List.rdropWhile_prefix _ _).length_le)
  have nonempty : (runes t).isEmpty = false := by
    cases t with
    | nil => exact absurd rfl some
    | cons b rest => rw [runes_cons]; rfl
  have start : ((runes (t ++ b :: rest)).dropWhile fun r => isWhiteSpace r.code) = runes (t ++ b :: rest) := by
    rw [parts, List.dropWhile_append, first, nonempty, if_neg Bool.false_ne_true]
  -- So the runes of the rest would all have been dropped at the end.
  have whole := List.rdropWhile_append_rtakeWhile (p := fun r : Rune => isWhiteSpace r.code)
    (l := runes (t ++ b :: rest))
  have own := runes_trim (t ++ b :: rest)
  rw [same, start] at own
  rw [← own, parts] at whole
  have dropped := List.mem_rtakeWhile_imp (List.append_cancel_left whole ▸ List.mem_cons_self)
  simp [shown] at dropped

/-- A shown character in front keeps what stands behind it from being trimmed away. -/
theorem trimEnd_append {b : UInt8} (ascii : b < 0x80) (shown : isWhiteSpace b.toNat = false) (u v : Bytes) :
    trimEnd (u ++ b :: v) = u ++ b :: trimEnd v := by
  have parts : runes (u ++ b :: v) = runes u ++ ⟨b.toNat, 1⟩ :: runes v := by
    have here : Boundary (u ++ b :: v) u.length := boundary_append (by simpa using ascii) u
    rw [runes_boundary here, List.take_left, List.drop_left, runes_cons, Rune.decode_ascii ascii]
    rfl
  have kept : ((runes u ++ ⟨b.toNat, 1⟩ :: runes v).reverse.dropWhile fun r => isWhiteSpace r.code) =
      ((runes v).reverse.dropWhile fun r => isWhiteSpace r.code) ++ ⟨b.toNat, 1⟩ :: (runes u).reverse := by
    have whole : (runes u ++ ⟨b.toNat, 1⟩ :: runes v).reverse =
        (runes v).reverse ++ ⟨b.toNat, 1⟩ :: (runes u).reverse := by simp
    rw [whole, List.dropWhile_append, List.dropWhile_cons_of_neg (by simp [shown])]
    split
    · rename_i none
      rw [List.isEmpty_iff.mp none, List.nil_append]
    · rfl
  have width (front back : List Rune) :
      widthOf (front ++ ⟨b.toNat, 1⟩ :: back.reverse) = widthOf back + (widthOf front + 1) := by
    simp only [widthOf, List.map_append, List.map_cons, List.map_reverse, total_append, total, total_reverse]
    omega
  rw [trimEnd, parts, kept, width, widthOf_runes, List.take_length_add_append, List.take_succ_cons, trimEnd]

theorem trimEnd_prefix (t : Bytes) : trimEnd t <+: t := List.take_prefix _ _

theorem trimStart_cons {b : UInt8} (ascii : b < 0x80) (shown : isWhiteSpace b.toNat = false) (t : Bytes) :
    trimStart (b :: t) = b :: t := by
  rw [trimStart, runes_cons, Rune.decode_ascii ascii, List.takeWhile_cons_of_neg (by simp [shown])]
  rfl

/-- What is left of a text without white space at its start. -/
theorem trimEnd_ne_nil {t : Bytes} (started : trimStart t = t) (nonempty : t ≠ []) : trimEnd t ≠ [] := by
  intro none
  have blank := runes_trimEnd t
  rw [none] at blank
  have all := List.rdropWhile_eq_nil_iff.mp blank.symm
  have start := runes_trimStart t
  rw [started, List.dropWhile_eq_nil_iff.mpr all] at start
  have length := widthOf_runes t
  rw [start] at length
  exact nonempty (List.length_eq_zero_iff.mp length.symm)

/-- Nothing is trimmed from a text without white space. -/
theorem trim_eq_self {t : Bytes} (visible : ∀ r ∈ runes t, isWhiteSpace r.code = false) : trim t = t := by
  have shown (r : Rune) (member : r ∈ runes t) : ¬ isWhiteSpace r.code = true := by simp [visible r member]
  have start : ((runes t).dropWhile fun r => isWhiteSpace r.code) = runes t :=
    List.dropWhile_eq_self_iff.mpr fun _ => shown _ (List.getElem_mem _)
  refine eq_of_runes_trim ?_
  rw [runes_trim, start]
  exact List.rdropWhile_eq_self_iff.mpr fun _ => shown _ (List.getLast_mem _)

/-! ## Numbers behind a space -/

theorem isAscii_of_digits {t : Bytes} (digits : ∀ b ∈ t, isDigit b = true) : IsAscii t := by
  intro b member
  have digit := digits b member
  rw [isDigit, Bool.and_eq_true, decide_eq_true_eq, decide_eq_true_eq] at digit
  exact UInt8.lt_of_le_of_lt digit.2 (by decide)

/-- A space in front of digits is all that is trimmed. -/
theorem trim_space_digits {t : Bytes} (digits : ∀ b ∈ t, isDigit b = true) : trim (space :: t) = t := by
  have shown : ∀ b : UInt8, isDigit b = true → isWhiteSpace b.toNat = false := forall_byte (by decide +kernel)
  have ascii := isAscii_of_digits digits
  have start : trimStart (space :: t) = t := by
    rw [trimStart_of_isAscii fun b member => ?_, List.dropWhile_cons_of_pos (by decide)]
    · cases t with
      | nil => rfl
      | cons b rest => exact List.dropWhile_cons_of_neg (by simp [shown b (digits b List.mem_cons_self)])
    · obtain rfl | member := List.mem_cons.mp member
      · decide
      · exact ascii b member
  rw [trim, start, trimEnd_of_isAscii ascii]
  exact trimEndWhile_eq_self fun b member => shown b (digits b member)

end Colloquy.Bytes
