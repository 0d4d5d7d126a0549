import Colloquy.Proofs.Document.Block
import Colloquy.Proofs.Document.Paragraph
import Mathlib.Data.List.Infix

/-! # Nodes cut no rune

The scan goes byte by byte and skips the byte behind a backslash, so it may look into the middle of a rune. What it
reports is clear of that: each construct starts with an ASCII byte, and it ends behind one, in front of one or where its
stretch ends. Line by line the same holds for the blocks, and so every node starts and ends between two runes, also
where the text is no valid UTF-8.
-/

namespace Colloquy

open Bytes (Boundary boundary_ascii)

namespace Bytes

/-- An offset of a stretch beside which no rune is cut: the end of the stretch, or a place next to an ASCII byte. -/
inductive Seam (t : Bytes) (n : Nat) : Prop where
  | last : n = t.length → Seam t n
  | before {b : UInt8} : t[n]? = some b → b < 0x80 → Seam t n
  | behind {m : Nat} {b : UInt8} : n = m + 1 → t[m]? = some b → b < 0x80 → Seam t n

variable {t : Bytes} {n k : Nat}

theorem Seam.add (seam : Seam (t.drop k) n) (le : k ≤ t.length) : Seam t (k + n) := by
  cases seam with
  | last same =>
      rw [List.length_drop] at same
      exact .last (by omega)
  | before here ascii => exact .before (List.getElem?_drop ▸ here) ascii
  | behind same here ascii => exact .behind (by omega) (List.getElem?_drop ▸ here) ascii

theorem Seam.cons {b : UInt8} (seam : Seam t n) : Seam (b :: t) (n + 1) := by
  have behind := Seam.add (t := b :: t) (k := 1) seam (by simp)
  rwa [Nat.add_comm] at behind

/-- A run of bytes ends in front of the first that does not belong to it. -/
theorem seam_takeWhile {p : UInt8 → Bool} (stops : ∀ b, p b = false → b < 0x80) (t : Bytes) :
    Seam t (t.takeWhile p).length := by
  induction t with
  | nil => exact .last rfl
  | cons b t ih =>
      cases known : p b with
      | true =>
          rw [List.takeWhile_cons_of_pos known]
          exact ih.cons
      | false =>
          rw [List.takeWhile_cons_of_neg (by simp [known])]
          exact .before rfl (stops b known)

theorem isSpaceByte_ascii (b : UInt8) (space : (!isSpaceByte b) = false) : b < 0x80 := by
  simp only [isSpaceByte, Bool.not_eq_false', Bool.or_eq_true, beq_iff_eq] at space
  obtain ((rfl | rfl) | rfl) | rfl := space <;> decide

end Bytes

/-- No rune of the text is cut where a stretch starts and where it ends. -/
structure Extent.IsWhole (text : Bytes) (e : Extent) : Prop where
  start : Boundary text e.start
  stop : Boundary text e.stop
  le : e.start ≤ e.stop

namespace Document

/-! ## Constructs -/

namespace Inline

/-- A part of a text that stands at an offset and at whose end no rune is cut. -/
structure Stands (text : Bytes) (pos : Nat) (t : Bytes) : Prop where
  here : t <+: text.drop pos
  stop : Boundary text (pos + t.length)

namespace Stands

variable {text t : Bytes} {pos n : Nat}

theorem getElem? (stands : Stands text pos t) {b : UInt8} (here : t[n]? = some b) : text[pos + n]? = some b := by
  obtain ⟨tail, same⟩ := stands.here
  obtain ⟨inside, -⟩ := List.getElem?_eq_some_iff.mp here
  rw [← List.getElem?_drop, ← same, List.getElem?_append_left inside, here]

theorem boundary (stands : Stands text pos t) (seam : t.Seam n) : Boundary text (pos + n) := by
  cases seam with
  | last same => exact same ▸ stands.stop
  | before here ascii => exact (boundary_ascii (stands.getElem? here) ascii).1
  | behind same here ascii => exact same ▸ (boundary_ascii (stands.getElem? here) ascii).2

theorem drop (stands : Stands text pos t) (le : n ≤ t.length) : Stands text (pos + n) (t.drop n) where
  here := by
    rw [← List.drop_drop]
    exact stands.here.drop n
  stop := by
    rw [List.length_drop, Nat.add_assoc, Nat.add_sub_of_le le]
    exact stands.stop

theorem of_slice {start stop : Nat} (le : start ≤ stop) (ends : Boundary text stop) :
    Stands text start (text.slice start stop) where
  here := List.take_prefix _ _
  stop := by
    have inside := ends.le_length
    rwa [Bytes.slice, List.length_take, List.length_drop, Nat.min_eq_left (by omega), Nat.add_sub_of_le le]

end Stands

/-! Where each construct ends. -/

theorem seam_attributes {b : UInt8} (ascii : b < 0x80) (t : Bytes) :
    Bytes.Seam (b :: t) (1 + attributesLength t) := by
  unfold attributesLength
  split
  · cases closed : Bracket.brace? t with
    | none => exact .behind rfl rfl ascii
    | some close =>
        refine .behind (m := close + 1) (b := 0x7D) (Nat.add_comm _ _) ?_ (by decide)
        rw [List.getElem?_cons_succ]
        exact Bracket.closing?_getElem closed
  · exact .behind rfl rfl ascii

theorem seam_directive {before : Option UInt8} {t : Bytes} {d : DirectiveParts}
    (found : directiveAt? before t = some d) : Bytes.Seam (0x3A :: t) d.length := by
  unfold directiveAt? at found
  split_ifs at found
  obtain ⟨tail, rfl, -, -, attributes⟩ := directive?_spelled found
  have text : 0x3A :: (d.name ++ 0x5B :: (d.inner ++ 0x5D :: tail)) =
      (0x3A :: d.name ++ 0x5B :: d.inner) ++ 0x5D :: tail := by simp
  have length : d.length = (0x3A :: d.name ++ 0x5B :: d.inner).length + (1 + d.attributes) := by
    simp only [DirectiveParts.length, List.length_append, List.length_cons]
    omega
  rw [text, length, attributes]
  refine Bytes.Seam.add ?_ (by simp)
  rw [List.drop_left]
  exact seam_attributes (by decide) tail

theorem seam_definition {t : Bytes} {n : Nat} (found : definition? t = some n) : t.Seam n := by
  have le := definition?_le found
  simp only [definition?] at found
  split_ifs at found with missing
  cases found
  exact (Bytes.seam_takeWhile Bytes.isSpaceByte_ascii _).add (by omega)

theorem seam_link {before : Option UInt8} {t : Bytes} {n : Nat} (found : link? before t = some n) : t.Seam n := by
  unfold link? at found
  generalize (if t.head? == some 0x21 then 1 else 0) = bang at found
  simp only at found
  split at found
  · cases found
  · rename_i close closed
    have label := Bracket.closing?_lt closed
    rw [List.length_drop] at label
    split at found
    · obtain ⟨i, target, rfl⟩ := Option.map_eq_some_iff.mp found
      have here := destination?_getElem target
      rw [List.getElem?_drop] at here
      exact .behind rfl here (by decide)
    · split_ifs at found with first
      obtain ⟨i, target, rfl⟩ := Option.map_eq_some_iff.mp found
      have none : bang = 0 := by
        rw [Bool.and_eq_true, beq_iff_eq] at first
        exact first.1
      subst none
      rw [Nat.zero_add] at target
      exact (seam_definition target).add (by omega)
    · cases found

theorem seam_autolink {t : Bytes} {n : Nat} (found : autolink? t = some n) : Bytes.Seam (0x3C :: t) n := by
  cases t with
  | nil => cases found
  | cons b t =>
      have whole := List.takeWhile_append_dropWhile (p := isSchemeByte) (l := b :: t)
      simp only [autolink?] at found
      generalize (b :: t).takeWhile isSchemeByte = scheme at *
      generalize (b :: t).dropWhile isSchemeByte = rest at *
      split_ifs at found
      obtain ⟨stop, closed, rfl⟩ := Option.map_eq_some_iff.mp found
      have here := (autolinkEnd_getElem closed).2
      refine .behind (b := 0x3E) rfl ?_ (by decide)
      rw [← whole, show 1 + scheme.length + 1 + stop = scheme.length + (1 + stop) + 1 by omega,
        List.getElem?_cons_succ, List.getElem?_append_right (by omega), Nat.add_sub_cancel_left, ← List.getElem?_drop]
      exact here

end Inline

/-! ## The inline scan -/

/-- No rune of the text is cut where the node starts and where it ends. -/
def Node.IsClear (text : Bytes) (n : Node) : Prop := Boundary text n.start ∧ Boundary text n.stop

namespace Inline

variable {text t : Bytes} {pos n : Nat}

theorem Stands.behind {b : UInt8} {rest : Bytes} (stands : Stands text pos (b :: rest))
    (bounds : 0 < n ∧ n ≤ rest.length + 1) : Stands text (pos + n) (rest.drop (n - 1)) := by
  obtain ⟨m, rfl⟩ := Nat.exists_eq_add_of_lt bounds.1
  simpa using stands.drop bounds.2

theorem Stands.isClear {b : UInt8} {rest : Bytes} (stands : Stands text pos (b :: rest)) (ascii : b < 0x80)
    (seam : Bytes.Seam (b :: rest) n) (kind : Kind) (name : Bytes) (depth : Nat) :
    Node.IsClear text ⟨kind, name, pos, pos + n, depth⟩ :=
  ⟨stands.boundary (n := 0) (.before rfl ascii), stands.boundary seam⟩

/-- What stands between the brackets of a directive. -/
theorem Stands.inner {before : Option UInt8} {rest : Bytes} {d : DirectiveParts}
    (stands : Stands text pos (0x3A :: rest)) (found : directiveAt? before rest = some d) :
    Stands text (pos + d.name.length + 2) d.inner := by
  unfold directiveAt? at found
  split_ifs at found
  obtain ⟨tail, rfl, -⟩ := directive?_spelled found
  have behind := stands.drop (n := d.name.length + 2) (by simp)
  have same : (0x3A :: (d.name ++ 0x5B :: (d.inner ++ 0x5D :: tail))).drop (d.name.length + 2) =
      d.inner ++ 0x5D :: tail := by
    simp
  rw [same, ← Nat.add_assoc] at behind
  exact ⟨(List.prefix_append _ _).trans behind.here, behind.boundary (.before (b := 0x5D) (by simp) (by decide))⟩

/-- Each node of a stretch starts and ends between two runes of the text around it. -/
theorem isClear_scan {before : Option UInt8} (stands : Stands text pos t) :
    ∀ n ∈ scan before pos t, n.IsClear text := by
  fun_induction scan before pos t with
  | case1 => exact List.forall_mem_nil _
  | case2 before pos b rest _ ih =>
      -- Behind the escaped byte the scan may be inside a rune, but no construct starts there.
      cases rest with
      | nil =>
          rw [List.drop_nil, scan_nil]
          exact List.forall_mem_nil _
      | cons c rest => exact ih (stands.drop (n := 2) (by simp))
  | case3 before pos b rest _ backtick n ih =>
      obtain rfl : b = 0x60 := by simpa using backtick
      exact ih (stands.behind (codeSpanLength_bounds rest))
  | case4 before pos b rest _ _ colon d found ihInner ihBehind =>
      obtain rfl : b = 0x3A := by simpa using colon
      have here := stands.isClear (by decide) (seam_directive found) .directive d.name 0
      have behind := ihBehind (stands.behind ⟨length_pos d, length_le_of_directiveAt? found⟩)
      exact List.forall_mem_cons.mpr ⟨here, List.forall_mem_append.mpr ⟨ihInner (stands.inner found), behind⟩⟩
  | case6 before pos b rest _ _ _ starts n found ih =>
      have ascii : b < 0x80 := by obtain rfl | rfl := startsLink_cases starts <;> decide
      have here := stands.isClear ascii (seam_link found) .link [] 0
      exact List.forall_mem_cons.mpr ⟨here, ih (stands.behind (link?_bounds found))⟩
  | case8 before pos b rest _ _ _ _ angle n found ih =>
      obtain rfl : b = 0x3C := by simpa using angle
      have here := stands.isClear (by decide) (seam_autolink found) .link [] 0
      exact List.forall_mem_cons.mpr ⟨here, ih (stands.behind (autolink?_bounds found))⟩
  | case5 before pos b rest _ _ _ _ ih | case7 before pos b rest _ _ _ _ _ ih
  | case9 before pos b rest _ _ _ _ _ _ ih | case10 before pos b rest _ _ _ _ _ ih =>
      exact ih (stands.drop (n := 1) (by simp))

end Inline

/-! ## Lines -/

/-- No rune of the text is cut where the line starts, where its content ends and where the next line starts. -/
structure Line.IsClear (text : Bytes) (l : Line) : Prop where
  start : Boundary text l.start
  stop : Boundary text l.stop
  next : Boundary text l.next

/-- The content of a line ends where the text ends, or in front of a carriage return or what ends the line. -/
theorem Line.boundary_content (front line tail : Bytes) (ascii : ∀ b ∈ tail.head?, b < 0x80) :
    Boundary (front ++ (line ++ tail)) (front.length + (dropReturn line).length) := by
  obtain ⟨ending, trails, -, whole⟩ := exists_return line
  have fresh : ∀ b ∈ (ending ++ tail).head?, b < 0x80 := by
    intro b first
    cases ending with
    | nil => exact ascii b first
    | cons c ending => obtain rfl | rfl := trails.ends b first <;> decide
  have here := Bytes.boundary_append fresh (front ++ dropReturn line)
  rw [List.length_append, List.append_assoc, ← List.append_assoc (dropReturn line), ← whole] at here
  exact here

theorem Line.isClear_ofText (front t : Bytes) (start : Boundary (front ++ t) front.length) :
    ∀ l ∈ ofText front.length t, l.IsClear (front ++ t) := by
  induction t using Bytes.lineInduction generalizing front with
  | last t free =>
      rw [ofText_last free]
      split
      · exact List.forall_mem_nil _
      · have stop := boundary_content front t [] (by simp)
        have next := Bytes.boundary_length (front ++ t)
        rw [List.append_nil] at stop
        rw [List.length_append] at next
        exact List.forall_mem_singleton.mpr ⟨start, stop, next⟩
  | more line rest free ih =>
      have stop := boundary_content front line (Bytes.lf :: rest) (by simp; decide)
      have next : Boundary (front ++ (line ++ Bytes.lf :: rest)) (front.length + line.length + 1) :=
        (boundary_ascii (b := Bytes.lf) (by simp) (by decide)).2
      have text : front ++ (line ++ Bytes.lf :: rest) = (front ++ line ++ [Bytes.lf]) ++ rest := by simp
      have length : front.length + line.length + 1 = (front ++ line ++ [Bytes.lf]).length := by
        simp only [List.length_append, List.length_singleton]
      rw [ofText_line free]
      refine List.forall_mem_cons.mpr ⟨⟨start, stop, next⟩, ?_⟩
      rw [text, length] at next ⊢
      exact ih _ next

/-! ## Blocks -/

namespace Block

variable {text : Bytes} {st : State} {stack : List Opening} {l : Line} {ls : List Line}

/-- No rune is cut at what the scanner has kept of the leaf block that it is in. -/
def Mode.IsClear (text : Bytes) : Mode → Prop
  | .idle => True
  | .paragraph start stop | .indented start stop => Boundary text start ∧ Boundary text stop
  | .fenced _ _ start | .html _ start => Boundary text start

/-- No rune is cut at any offset that the scanner has kept. -/
structure State.IsClear (text : Bytes) (st : State) : Prop where
  mode : st.mode.IsClear text
  stack : ∀ o ∈ st.stack, Boundary text o.start

/-- No rune is cut by what is kept behind a line or by the nodes that it completes. -/
structure Clears (text : Bytes) (st : State) (out : List Node) : Prop where
  state : st.IsClear text
  found : ∀ n ∈ out, n.IsClear text

theorem isClear_flush {mode : Mode} (clear : mode.IsClear text) : ∀ n ∈ flush text mode, n.IsClear text := by
  cases mode with
  | idle | indented | fenced | html => exact List.forall_mem_nil _
  | paragraph start stop =>
      by_cases le : start ≤ stop
      · exact Inline.isClear_scan (.of_slice le clear.2)
      · have none : text.slice start stop = [] := by
          rw [Bytes.slice, Nat.sub_eq_zero_of_le (Nat.le_of_not_le le), List.take_zero]
        rw [flush, none, Inline.nodes, Inline.scan_nil]
        exact List.forall_mem_nil _

theorem isClear_container (opened : ∀ o ∈ stack, Boundary text o.start) (line : l.IsClear text) :
    (∀ o ∈ (container stack l).1, Boundary text o.start) ∧ ∀ n ∈ (container stack l).2, n.IsClear text := by
  unfold container
  simp only
  split
  · cases stack with
    | nil => exact ⟨List.forall_mem_nil _, List.forall_mem_nil _⟩
    | cons top stack =>
        obtain ⟨first, others⟩ := List.forall_mem_cons.mp opened
        simp only
        split
        · exact ⟨opened, List.forall_mem_nil _⟩
        · exact ⟨others, List.forall_mem_singleton.mpr ⟨first, line.next⟩⟩
  · exact ⟨List.forall_mem_cons.mpr ⟨line.start, opened⟩, List.forall_mem_nil _⟩

theorem Opens.clears {st' : State} {out : List Node} (opens : Opens text st l st' out) (clear : st.IsClear text)
    (line : l.IsClear text) : Clears text st' out := by
  obtain ⟨mode, stack⟩ := clear
  have flushed := isClear_flush mode
  cases opens with
  | blank => exact ⟨⟨trivial, stack⟩, flushed⟩
  | fence => exact ⟨⟨line.start, stack⟩, flushed⟩
  | indented => exact ⟨⟨⟨line.start, line.next⟩, stack⟩, List.forall_mem_nil _⟩
  | literal => exact ⟨⟨trivial, stack⟩, List.forall_mem_singleton.mpr ⟨line.start, line.next⟩⟩
  | tag => exact ⟨⟨line.start, stack⟩, List.forall_mem_nil _⟩
  | begun => exact ⟨⟨⟨line.start, line.stop⟩, stack⟩, List.forall_mem_nil _⟩
  | continued known =>
      rw [known] at mode
      exact ⟨⟨⟨mode.1, line.stop⟩, stack⟩, List.forall_mem_nil _⟩
  | container =>
      have contained := isClear_container stack line
      generalize Block.container st.stack l = closed at contained ⊢
      exact ⟨⟨trivial, contained.1⟩, List.forall_mem_append.mpr ⟨flushed, contained.2⟩⟩

/-- A line keeps the state clear. -/
theorem clears_step (clear : st.IsClear text) (line : l.IsClear text) :
    Clears text (step text st l).1 (step text st l).2 := by
  have steps := steps_step text st l
  generalize (step text st l).1 = st', (step text st l).2 = out at steps ⊢
  obtain ⟨mode, stack⟩ := clear
  cases steps with
  | kept => exact ⟨⟨mode, stack⟩, List.forall_mem_nil _⟩
  | fenceClosed known | tagClosed known =>
      rw [known] at mode
      exact ⟨⟨trivial, stack⟩, List.forall_mem_singleton.mpr ⟨mode, line.next⟩⟩
  | tagLeft known =>
      rw [known] at mode
      exact ⟨⟨trivial, stack⟩, List.forall_mem_singleton.mpr ⟨mode, line.start⟩⟩
  | indentedOn known =>
      rw [known] at mode
      exact ⟨⟨⟨mode.1, line.next⟩, stack⟩, List.forall_mem_nil _⟩
  | indentedLeft known opens =>
      rw [known] at mode
      have inner := opens.clears ⟨trivial, stack⟩ line
      exact ⟨inner.state, List.forall_mem_cons.mpr ⟨mode, inner.found⟩⟩
  | opens opens => exact opens.clears ⟨mode, stack⟩ line

theorem isClear_closeAll {stop : Nat} (opened : ∀ o ∈ stack, Boundary text o.start) (ends : Boundary text stop) :
    ∀ n ∈ closeAll stop stack, n.IsClear text := by
  induction stack with
  | nil => exact List.forall_mem_nil _
  | cons top stack ih =>
      obtain ⟨first, others⟩ := List.forall_mem_cons.mp opened
      exact List.forall_mem_cons.mpr ⟨⟨first, ends⟩, ih others⟩

theorem isClear_finish (clear : st.IsClear text) : ∀ n ∈ finish text st, n.IsClear text := by
  have last := Bytes.boundary_length text
  obtain ⟨leaf, ends, same⟩ := exists_ends text st
  obtain ⟨mode, stack⟩ := clear
  rw [same]
  refine List.forall_mem_append.mpr ⟨?_, isClear_closeAll stack last⟩
  generalize st.mode = open' at ends mode
  cases ends with
  | fenced | html => exact List.forall_mem_singleton.mpr ⟨mode, last⟩
  | indented => exact List.forall_mem_singleton.mpr mode
  | flushed => exact isClear_flush mode

/-- Lines keep the state clear, so every node of a run is. -/
theorem isClear_run (st : State) (clear : st.IsClear text) (lines : ∀ l ∈ ls, l.IsClear text) :
    ∀ n ∈ run text st ls, n.IsClear text := by
  refine forall_run ?_ isClear_finish st clear lines
  intro st l clear here
  have read := clears_step clear here
  exact ⟨read.state, read.found⟩

end Block

/-! ## Documents -/

theorem Header.boundary_stop {text : Bytes} {h : Header} (found : Header.ofText? text = some h) :
    Boundary text h.stop := by
  have lines := Line.isClear_ofText [] text .zero
  unfold ofText? at found
  split at found
  · cases found
  · rename_i opening rest same
    rw [List.length_nil, List.nil_append, same] at lines
    split_ifs at found
    split at found
    · rename_i l closing
      cases found
      exact (lines l (List.mem_cons_of_mem _ (List.mem_of_find?_eq_some closing))).next
    · cases found
      exact Bytes.boundary_length text

theorem boundary_body (text : Bytes) : Boundary text (bodyOf (Header.ofText? text)) := by
  cases found : Header.ofText? text with
  | none => exact .zero
  | some h => exact Header.boundary_stop found

/-- No rune is cut where a node starts and where it ends, whatever the bytes of the text are. -/
theorem isWhole_extent {text : Bytes} {n : Node} (member : n ∈ (ofText text).nodes) : n.extent.IsWhole text := by
  have body := boundary_body text
  have order := (nested_bodyNodes body.le_length).bounds n member
  have found := mem_bodyNodes.mp member
  have front := List.length_take_of_le body.le_length
  have lines := Line.isClear_ofText (text.take (bodyOf (Header.ofText? text)))
    (text.drop (bodyOf (Header.ofText? text)))
  rw [List.take_append_drop, front] at lines
  obtain ⟨start, stop⟩ := Block.isClear_run .start ⟨trivial, List.forall_mem_nil _⟩ (lines body) n found
  exact ⟨start, stop, Nat.le_of_lt order.2.1⟩

end Document

end Colloquy
