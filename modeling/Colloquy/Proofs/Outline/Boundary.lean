import Colloquy.Proofs.Document.Boundary
import Colloquy.Proofs.Outline.Inner
import Mathlib.Order.MinMax

/-! # The insides of directives and links cut no rune

What an outline finds in the text of a node lies between ASCII bytes or where the node ends, so what stands between a
directive's brackets and the destination of a link may be replaced without cutting a rune.
-/

namespace Colloquy

open Document.Inline (Stands indexOf?_getElem indexOf?_lt)

namespace Directive

theorem isWhole_inner {text : Bytes} {n : Document.Node} (whole : n.extent.IsWhole text) :
    (ofNode text n).inner.IsWhole text := by
  have stands : Stands text n.start (text.slice n.start n.stop) := .of_slice whole.le whole.stop
  simp only [ofNode]
  cases found : (text.slice n.start n.stop).indexOf? 0x5B with
  | none => exact ⟨whole.stop, whole.stop, Nat.le_refl _⟩
  | some i =>
      have opening := indexOf?_getElem found
      have start : Bytes.Boundary text (n.start + i + 1) := stands.boundary (.behind rfl opening (by decide))
      simp only
      cases closed : Document.Bracket.square? ((text.slice n.start n.stop).drop i) with
      | none =>
          have inside := indexOf?_lt found
          have length : (text.slice n.start n.stop).length = n.stop - n.start :=
            Bytes.length_slice n.start whole.stop.le_length
          refine ⟨start, whole.stop, ?_⟩
          simp only
          omega
      | some close =>
          have closing := Document.Bracket.closing?_getElem closed
          have bounds := Document.Bracket.square?_bounds (by rw [List.head?_drop, opening]) closed
          rw [List.getElem?_drop] at closing
          have stop := stands.boundary (.before closing (by decide))
          rw [← Nat.add_assoc] at stop
          refine ⟨start, stop, ?_⟩
          simp only
          omega

end Directive

namespace Link

variable {raw : Bytes} {i : Nat}

/-- Blanks end behind a blank, if there is one. -/
theorem seam_skipBlanks (seam : raw.Seam i) : raw.Seam (skipBlanks raw i) := by
  have ascii : ∀ b, Bytes.isBlankByte b = true → b < 0x80 := by
    simp only [Bytes.isBlankByte, Bool.or_eq_true, beq_iff_eq]
    rintro b (rfl | rfl) <;> decide
  unfold skipBlanks
  cases length : ((raw.drop i).takeWhile Bytes.isBlankByte).length with
  | zero => exact seam
  | succ m =>
      have inside : m < ((raw.drop i).takeWhile Bytes.isBlankByte).length := by omega
      have blank := List.all_eq_true.mp List.all_takeWhile _ (List.getElem_mem inside)
      have here := List.prefix_iff_getElem?.mp (List.takeWhile_prefix Bytes.isBlankByte) m inside
      rw [List.getElem?_drop] at here
      exact .behind (Nat.add_assoc ..).symm here (ascii _ blank)

theorem seam_wordEnd (le : i ≤ raw.length) : raw.Seam (wordEnd raw i) :=
  (Bytes.seam_takeWhile Bytes.isSpaceByte_ascii _).add le

/-- Two bytes that are found, the second of them ASCII, and the blanks behind them. -/
theorem seam_behind {a b : UInt8} (found : raw.find? [a, b] = some i) (ascii : b < 0x80) :
    raw.Seam (skipBlanks raw (i + 2)) ∧ skipBlanks raw (i + 2) ≤ raw.length := by
  have occurs := List.prefix_iff_getElem?.mp (Bytes.find?_prefix found).2 1 (Nat.lt_succ_self 1)
  rw [List.getElem?_drop] at occurs
  have here : raw.Seam (i + 2) := .behind rfl occurs ascii
  exact ⟨seam_skipBlanks here, (skipBlanks_bounds (Bytes.find?_le found)).2⟩

/-- The stretch of a link's own text that is its destination. -/
structure Delimited (raw : Bytes) (e : Extent) : Prop where
  start : e.start = 0 ∨ raw.Seam e.start
  stop : raw.Seam e.stop
  le : e.start ≤ e.stop

theorem delimited_destination (raw : Bytes) : Delimited raw (destination raw) := by
  unfold destination
  split
  · rename_i angled
    obtain ⟨rest, rfl⟩ : ∃ rest, raw = 0x3C :: rest := by
      obtain ⟨rest, same⟩ := List.isPrefixOf_iff_prefix.mp angled
      exact ⟨rest, same.symm⟩
    have start : Bytes.Seam (0x3C :: rest) 1 := .behind rfl rfl (by decide)
    split
    · rename_i angle found
      have closing := indexOf?_getElem found
      refine ⟨.inr start, .before closing (by decide), Nat.pos_of_ne_zero ?_⟩
      rintro rfl
      cases closing
    · exact ⟨.inr start, .last rfl, by simp⟩
  split
  · rename_i i found
    obtain ⟨start, inside⟩ := seam_behind (a := 0x5D) (b := 0x28) found (by decide)
    simp only
    generalize skipBlanks raw (i + 2) = p at *
    have word := wordEnd_bounds inside
    split
    · rename_i close found
      split at found
      · rename_i opens
        have closing := indexOf?_getElem found
        rw [List.getElem?_drop] at closing
        exact ⟨.inr (.behind rfl (eq_of_beq opens) (by decide)), .before closing (by decide), Nat.le_add_right _ _⟩
      · cases found
    · split
      · rename_i close closed
        have closing := Document.Bracket.closing?_getElem closed
        rw [List.getElem?_drop] at closing
        refine ⟨.inr start, ?_, Nat.le_max_left _ _⟩
        simp only
        obtain same | same := max_choice p (min (wordEnd raw p) (i + 1 + close))
        · rwa [same]
        rw [same]
        obtain same | same := min_choice (wordEnd raw p) (i + 1 + close)
        · rw [same]
          exact seam_wordEnd inside
        · rw [same]
          exact .before closing (by decide)
      · exact ⟨.inr start, seam_wordEnd inside, word.1⟩
  split
  · rename_i i found
    obtain ⟨start, inside⟩ := seam_behind (a := 0x5D) (b := 0x3A) found (by decide)
    exact ⟨.inr start, seam_wordEnd inside, (wordEnd_bounds inside).1⟩
  · exact ⟨.inl rfl, .last rfl, Nat.zero_le _⟩

theorem isWhole_url {text : Bytes} {n : Document.Node} (whole : n.extent.IsWhole text) :
    (ofNode text n).url.IsWhole text := by
  have stands : Stands text n.start (text.slice n.start n.stop) := .of_slice whole.le whole.stop
  obtain ⟨start, stop, le⟩ := delimited_destination (text.slice n.start n.stop)
  refine ⟨?_, stands.boundary stop, Nat.add_le_add_left le _⟩
  obtain first | seam := start
  · simp only [ofNode, first]
    exact whole.start
  · exact stands.boundary seam

end Link

namespace Outline

variable {text : Bytes}

theorem isWhole_directive {d : Directive} (member : d ∈ (ofText text).directives) :
    d.extent.IsWhole text ∧ d.inner.IsWhole text := by
  obtain ⟨n, among, rfl⟩ := List.mem_map.mp member
  have whole := Document.isWhole_extent (List.mem_filter.mp among).1
  exact ⟨whole, Directive.isWhole_inner whole⟩

theorem isWhole_url {l : Link} (member : l ∈ (ofText text).links) : l.url.IsWhole text := by
  obtain ⟨n, among, rfl⟩ := List.mem_map.mp member
  exact Link.isWhole_url (Document.isWhole_extent (List.mem_filter.mp among).1)

end Outline

end Colloquy
