import Colloquy.Document.Inline
import Colloquy.Proofs.Document.Nesting
import Mathlib.Tactic.SplitIfs

/-! # Inline constructs are well nested

Each construct takes at least one byte and no more than there are; the lemmas below say so function by
function. With them the scan of a paragraph is well nested, by induction on the scan: what a directive holds
lies between its brackets, and the scan goes on behind each construct.
-/

namespace Colloquy.Document

namespace Bracket

theorem closingFrom_bounds {left right : UInt8} {escaped : Bool} {depth : Int} {pos close : Nat} {t : Bytes}
    (found : closingFrom left right escaped depth pos t = some close) :
    pos ≤ close ∧ close < pos + t.length := by
  -- A byte is passed on every path but the one that stops at it.
  fun_induction closingFrom left right escaped depth pos t with
  | case1 => simp at found
  | case5 depth pos b rest _ _ _ _ =>
      cases found
      simp only [List.length_cons]
      omega
  | case2 depth pos b rest ih | case3 depth pos b rest _ ih | case4 depth pos b rest _ _ ih
  | case6 depth pos b rest _ _ _ _ ih | case7 depth pos b rest _ _ _ ih =>
      have := ih found
      simp only [List.length_cons]
      omega

theorem closing?_lt {left right : UInt8} {t : Bytes} {close : Nat} (found : closing? left right t = some close) :
    close < t.length := by
  have := closingFrom_bounds found
  omega

/-- A bracket is not closed by itself. -/
theorem square?_bounds {t : Bytes} {close : Nat} (head : t.head? = some 0x5B)
    (found : square? t = some close) : 0 < close ∧ close < t.length := by
  refine ⟨?_, closing?_lt found⟩
  cases t with
  | nil => simp at head
  | cons b rest =>
      obtain rfl : b = 0x5B := by simpa using head
      have behind : closingFrom 0x5B 0x5D false 1 1 rest = some close := found
      have := closingFrom_bounds behind
      omega

end Bracket

namespace Inline

/-! ## The length of each construct -/

theorem attributesLength_le (t : Bytes) : attributesLength t ≤ t.length := by
  unfold attributesLength
  split
  · cases found : Bracket.brace? t with
    | none => exact Nat.zero_le _
    | some close => exact Bracket.closing?_lt found
  · exact Nat.zero_le _

/-- The parts of a directive follow one another in the text behind its colon. -/
theorem length_le_of_directiveAt? {before : Option UInt8} {t : Bytes} {d : DirectiveParts}
    (found : directiveAt? before t = some d) : d.length ≤ t.length + 1 := by
  have parts : (t.takeWhile isNameByte).length + (t.dropWhile isNameByte).length = t.length := by
    rw [← List.length_append, List.takeWhile_append_dropWhile]
  unfold directiveAt? directive? at found
  split_ifs at found
  cases t with
  | nil => simp at found
  | cons b rest =>
      simp only at found
      split_ifs at found with _ opened
      split at found
      · simp at found
      · rename_i close closed
        cases found
        have inside := Bracket.square?_bounds (by simpa using opened) closed
        have attributes := attributesLength_le (((b :: rest).dropWhile isNameByte).drop (close + 1))
        simp only [List.length_drop] at attributes
        simp only [DirectiveParts.length, Bytes.slice, List.length_take, List.length_drop]
        omega

theorem length_pos (d : DirectiveParts) : 0 < d.length := by
  unfold DirectiveParts.length
  omega

theorem indexOf?_lt {t : Bytes} {b : UInt8} {i : Nat} (found : t.indexOf? b = some i) : i < t.length :=
  (List.findIdx?_eq_some_iff_findIdx_eq.mp found).1

theorem destination?_lt {t : Bytes} {i : Nat} (found : destination? t = some i) : i < t.length := by
  unfold destination? at found
  simp only at found
  split at found
  · split at found
    · simp at found
    · obtain ⟨j, angle, rfl⟩ := Option.map_eq_some_iff.mp found
      have := indexOf?_lt angle
      simp only [List.length_drop] at this
      omega
  · exact Bracket.closing?_lt found

theorem definition?_le {t : Bytes} {n : Nat} (found : definition? t = some n) : n ≤ t.length := by
  unfold definition? at found
  simp only at found
  generalize ((t.drop 1).takeWhile Bytes.isBlankByte).length = blanks at found
  split_ifs at found with missing
  cases found
  have target := (List.takeWhile_prefix (l := t.drop (1 + blanks)) fun b => !Bytes.isSpaceByte b).length_le
  have some : 0 < ((t.drop (1 + blanks)).takeWhile fun b => !Bytes.isSpaceByte b).length := by
    simpa [List.length_pos_iff] using missing
  rw [List.length_drop] at target
  omega

theorem link?_bounds {before : Option UInt8} {t : Bytes} {n : Nat} (found : link? before t = some n) :
    0 < n ∧ n ≤ t.length := by
  unfold link? at found
  generalize (if t.head? == some 0x21 then 1 else 0) = bang at found
  simp only at found
  split at found
  · simp at found
  · rename_i close closed
    have label := Bracket.closing?_lt closed
    rw [List.length_drop] at label
    split at found
    · obtain ⟨i, target, rfl⟩ := Option.map_eq_some_iff.mp found
      have := destination?_lt target
      rw [List.length_drop] at this
      omega
    · split_ifs at found
      obtain ⟨i, target, rfl⟩ := Option.map_eq_some_iff.mp found
      have := definition?_le target
      rw [List.length_drop] at this
      omega
    · simp at found

theorem autolinkEnd_lt {pos stop : Nat} {t : Bytes} (found : autolinkEnd pos t = some stop) :
    stop < pos + t.length := by
  fun_induction autolinkEnd pos t with
  | case1 => simp at found
  | case2 pos b rest => cases found; simp
  | case3 => simp at found
  | case4 pos b rest _ _ ih =>
      have := ih found
      simp only [List.length_cons]
      omega

theorem autolink?_bounds {t : Bytes} {n : Nat} (found : autolink? t = some n) :
    0 < n ∧ n ≤ t.length + 1 := by
  have parts : (t.takeWhile isSchemeByte).length + (t.dropWhile isSchemeByte).length = t.length := by
    rw [← List.length_append, List.takeWhile_append_dropWhile]
  unfold autolink? at found
  cases t with
  | nil => simp at found
  | cons b rest =>
      simp only at found
      split_ifs at found
      obtain ⟨i, closed, rfl⟩ := Option.map_eq_some_iff.mp found
      have := autolinkEnd_lt closed
      rw [List.length_drop] at this
      omega

theorem backticksEnd_bounds {n run pos stop : Nat} {t : Bytes}
    (found : backticksEnd n run pos t = some stop) : pos ≤ stop ∧ stop ≤ pos + t.length := by
  fun_induction backticksEnd n run pos t with
  | case1 | case4 => cases found; simp
  | case2 => simp at found
  | case3 run pos b rest _ ih | case5 run pos b rest _ _ ih =>
      have := ih found
      simp only [List.length_cons]
      omega

theorem codeSpanLength_bounds (rest : Bytes) :
    0 < codeSpanLength (0x60 :: rest) ∧ codeSpanLength (0x60 :: rest) ≤ rest.length + 1 := by
  have opening : 0 < ((0x60 :: rest : Bytes).takeWhile (· == 0x60)).length := by simp
  have le := (List.takeWhile_prefix (l := (0x60 :: rest : Bytes)) (· == 0x60)).length_le
  rw [List.length_cons] at le
  unfold codeSpanLength
  simp only
  generalize ((0x60 :: rest : Bytes).takeWhile (· == 0x60)).length = n at *
  cases closed : backticksEnd n 0 n ((0x60 :: rest : Bytes).drop n) with
  | none => exact ⟨opening, le⟩
  | some stop =>
      have := backticksEnd_bounds closed
      simp only [List.length_drop, List.length_cons] at this
      simp only [Option.getD_some]
      omega

/-! ## The scan -/

section

variable {n pos depth : Nat} {rest : Bytes} {ns : List Node}

theorem nested_behind (bounds : 0 < n ∧ n ≤ rest.length + 1)
    (behind : Nested (pos + n) (pos + n + (rest.drop (n - 1)).length) depth ns) :
    Nested (pos + n) (pos + (rest.length + 1)) depth ns := by
  refine behind.widen (Nat.le_refl _) ?_
  rw [List.length_drop]
  omega

theorem nested_link (bounds : 0 < n ∧ n ≤ rest.length + 1)
    (behind : Nested (pos + n) (pos + n + (rest.drop (n - 1)).length) depth ns) :
    Nested pos (pos + (rest.length + 1)) depth (⟨.link, [], pos, pos + n, 0⟩ :: ns) := by
  have link : Nested pos (pos + n) depth [⟨.link, [], pos, pos + n, 0⟩] :=
    .leaf (Nat.le_refl _) (Nat.lt_add_of_pos_right bounds.1) (Nat.le_refl _) nofun rfl
  exact link.append (nested_behind bounds behind)

theorem nested_directive {d : DirectiveParts} {inner : List Node} (bound : d.length ≤ rest.length + 1)
    (held : Nested (pos + d.name.length + 2) (pos + d.name.length + 2 + d.inner.length) depth inner)
    (behind : Nested (pos + d.length) (pos + d.length + (rest.drop (d.length - 1)).length) depth ns) :
    Nested pos (pos + (rest.length + 1)) depth
      (⟨.directive, d.name, pos, pos + d.length, 0⟩ :: (inner ++ ns)) := by
  refine .cons (Nat.le_refl _) rfl (.inl (.inl rfl)) ?_ (nested_behind ⟨length_pos d, bound⟩ behind)
  refine held.widen ?_ ?_
  · simp only
    omega
  · simp only [DirectiveParts.length]
    omega

/-- The nodes of a stretch of text are well nested in it. -/
theorem nested_scan (before : Option UInt8) (pos : Nat) (t : Bytes) (depth : Nat) :
    Nested pos (pos + t.length) depth (scan before pos t) := by
  fun_induction scan before pos t with
  | case1 before pos => exact .nil (Nat.le_refl _)
  | case2 before pos b rest _ ih =>
      -- The escaped byte may be missing.
      cases rest with
      | nil =>
          rw [List.drop_nil, scan]
          exact .nil (Nat.le_add_right _ _)
      | cons c rest =>
          refine ih.widen (Nat.le_add_right _ _) ?_
          simp only [List.drop_one, List.tail_cons, List.length_cons]
          omega
  | case3 before pos b rest _ backtick n ih =>
      obtain rfl : b = 0x60 := by simpa using backtick
      exact (nested_behind (codeSpanLength_bounds rest) ih).widen (Nat.le_add_right _ _) (Nat.le_refl _)
  -- The brackets are scanned on their own, between the name and the attributes.
  | case4 before pos b rest _ _ _ d found ihInner ihBehind =>
      exact nested_directive (length_le_of_directiveAt? found) ihInner ihBehind
  | case6 before pos b rest _ _ _ _ n found ih => exact nested_link (link?_bounds found) ih
  | case8 before pos b rest _ _ _ _ _ n found ih => exact nested_link (autolink?_bounds found) ih
  | case5 before pos b rest _ _ _ _ ih | case7 before pos b rest _ _ _ _ _ ih
  | case9 before pos b rest _ _ _ _ _ _ ih | case10 before pos b rest _ _ _ _ _ ih =>
      refine ih.widen (Nat.le_add_right _ _) ?_
      rw [List.length_cons]
      omega

end

end Inline

end Colloquy.Document
