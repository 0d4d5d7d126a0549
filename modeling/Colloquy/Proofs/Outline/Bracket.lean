import Colloquy.Outline.Basic
import Colloquy.Proofs.Document.Place
import Colloquy.Proofs.Outline.Turn

/-! # The brackets of a directive

The scan matches the brackets of a directive in what is left of a paragraph, and the outline matches them once more in
the text of the node, which ends behind the attributes. Both find the same pair: what stands behind a closing bracket
has no part in finding it, and the name in front of the opening one holds none.
-/

namespace Colloquy

open Document.Bracket (square? brace?)

namespace Document.Inline

/-- A group in braces, the first of which is closed by the last byte. -/
structure IsGroup (t : Bytes) : Prop where
  opened : t.head? = some 0x7B
  closed : brace? t = some (t.length - 1)

/-- The attributes that a text begins with are a group in braces, or there are none. -/
theorem isGroup_attributes (t : Bytes) :
    t.take (attributesLength t) = [] ∨ IsGroup (t.take (attributesLength t)) := by
  unfold attributesLength
  split
  · rename_i brace
    cases closed : brace? t with
    | none => exact .inl rfl
    | some close =>
        have inside := Bracket.closing?_lt closed
        have length : (t.take (close + 1)).length = close + 1 := List.length_take_of_le inside
        simp only [Option.map_some, Option.getD_some]
        refine .inr ⟨?_, ?_⟩
        · rw [List.head?_take, if_neg (Nat.succ_ne_zero _)]
          exact eq_of_beq brace
        · rw [← List.take_append_drop (close + 1) t] at closed
          rw [length, Nat.add_sub_cancel]
          exact Bracket.closing?_of_append closed (by omega)
  · exact .inl rfl

/-- What a directive takes of the text that it is written in. -/
theorem DirectiveParts.Spelled.take_length {d : DirectiveParts} {t tail : Bytes} (spelled : d.Spelled t tail) :
    (0x3A :: t).take d.length = 0x3A :: (d.name ++ 0x5B :: (d.inner ++ 0x5D :: tail.take d.attributes)) := by
  have text : 0x3A :: t = (0x3A :: d.name ++ 0x5B :: d.inner ++ [0x5D]) ++ tail := by simp [spelled.text]
  have length : d.length = (0x3A :: d.name ++ 0x5B :: d.inner ++ [0x5D]).length + d.attributes := by
    simp only [DirectiveParts.length, List.length_append, List.length_cons, List.length_nil]
    omega
  rw [text, length, List.take_length_add_append]
  simp

/-- The brackets close each other whatever stands behind them. -/
theorem DirectiveParts.Spelled.closed_before {d : DirectiveParts} {t tail : Bytes} (spelled : d.Spelled t tail)
    (behind : Bytes) : square? (0x5B :: (d.inner ++ 0x5D :: behind)) = some (d.inner.length + 1) := by
  have whole : ∀ u : Bytes, 0x5B :: (d.inner ++ 0x5D :: u) = (0x5B :: (d.inner ++ [0x5D])) ++ u := by simp
  have closed := spelled.closed
  rw [whole] at closed ⊢
  exact Bracket.closing?_append_of_some (Bracket.closing?_of_append closed (by simp)) behind

end Document.Inline

open Document (Visits)
open Document.Inline (DirectiveParts IsName IsGroup directiveAt? directiveAt?_spelled)

namespace Directive

/-- In the text of a node that is written like a directive, the outline finds what stands between the brackets. -/
theorem ofNode_spelled {text attributes : Bytes} {n : Document.Node} {d : DirectiveParts} (name : IsName d.name)
    (written : n.extent.of text = 0x3A :: (d.name ++ 0x5B :: (d.inner ++ 0x5D :: attributes)))
    (closed : square? (0x5B :: (d.inner ++ 0x5D :: attributes)) = some (d.inner.length + 1)) :
    (n.extent.of text).indexOf? 0x5B = some (d.name.length + 1) ∧
    square? ((n.extent.of text).drop (d.name.length + 1)) = some (d.inner.length + 1) ∧
    ofNode text n = ⟨Bytes.lowerAscii n.name, n.extent,
      ⟨n.start + d.name.length + 2, n.start + d.name.length + 2 + d.inner.length⟩⟩ := by
  have free : (0x5B : UInt8) ∉ 0x3A :: d.name := by
    intro member
    obtain colon | member := List.mem_cons.mp member
    · cases colon
    · exact absurd (name.bytes _ member) (by decide)
  have opened : (n.extent.of text).indexOf? 0x5B = some (d.name.length + 1) := by
    rw [written, ← List.cons_append, Bytes.indexOf?_first free, List.length_cons]
  have rest : (n.extent.of text).drop (d.name.length + 1) = 0x5B :: (d.inner ++ 0x5D :: attributes) := by
    rw [written, List.drop_succ_cons, List.drop_left]
  have matched : square? ((n.extent.of text).drop (d.name.length + 1)) = some (d.inner.length + 1) := by
    rw [rest, closed]
  refine ⟨opened, matched, ?_⟩
  rw [Extent.of, Document.Node.extent] at opened matched
  simp only [ofNode, opened, matched, Directive.mk.injEq, Extent.mk.injEq, true_and]
  omega

/-- A directive that is found at a place of a text, as it is written there and as the outline has it. -/
theorem ofNode_found {text : Bytes} {before : Option UInt8} {pos : Nat} {t tail : Bytes} {d : DirectiveParts}
    (inside : Document.Inline.Place.In text ⟨before, pos, 0x3A :: t⟩) (found : directiveAt? before t = some d)
    (spelled : d.Spelled t tail) :
    let n : Document.Node := ⟨.directive, d.name, pos, pos + d.length, 0⟩
    n.extent.of text = 0x3A :: (d.name ++ 0x5B :: (d.inner ++ 0x5D :: tail.take d.attributes)) ∧
    (ofNode text n).inner.of text = d.inner ∧
    ofNode text n = ⟨Bytes.lowerAscii d.name, n.extent,
      ⟨pos + d.name.length + 2, pos + d.name.length + 2 + d.inner.length⟩⟩ := by
  intro n
  -- The text of the node is the part of the stretch that the directive takes.
  have le : d.length ≤ (0x3A :: t).length := Document.Inline.length_le_of_directiveAt? found
  have written : n.extent.of text = 0x3A :: (d.name ++ 0x5B :: (d.inner ++ 0x5D :: tail.take d.attributes)) := by
    rw [← spelled.take_length, ← inside.slice le, Extent.of]
    rfl
  obtain ⟨-, -, node⟩ := ofNode_spelled spelled.name written (spelled.closed_before _)
  refine ⟨written, ?_, node⟩
  have behind := inside.drop (n := d.name.length + 2) none
  have here : (0x3A :: t).drop (d.name.length + 2) = d.inner ++ 0x5D :: tail := by simp [spelled.text]
  rw [here] at behind
  have sliced := behind.slice (n := d.inner.length) (by simp)
  rw [List.take_left] at sliced
  rw [node]
  exact sliced

/-- A directive is found at a place that the scan comes to. -/
theorem exists_visit {text : Bytes} {d : Directive} (member : d ∈ (Outline.ofText text).directives) :
    ∃ n before t parts, d = ofNode text n ∧ Visits text ⟨before, n.start, 0x3A :: t⟩ ∧
      directiveAt? before t = some parts ∧ n = ⟨.directive, parts.name, n.start, n.start + parts.length, 0⟩ := by
  obtain ⟨n, among, rfl⟩ := List.mem_map.mp member
  obtain ⟨node, kind⟩ := List.mem_filter.mp among
  have kind : n.kind = .directive := eq_of_beq kind
  obtain ⟨p, visits, found⟩ := (Document.mem_nodes_iff (.inl kind)).mp node
  cases found with
  | @directive before pos t parts found => exact ⟨_, before, t, parts, rfl, visits, found, rfl⟩
  | link | autolink => cases kind

/-- A directive of an outline as the scan has read it, with the text `t` left behind its colon. -/
structure AsScanned (text : Bytes) (d : Directive) (t : Bytes) (parts : DirectiveParts) (attributes : Bytes) :
    Prop where
  /-- The scan has found the directive where the outline shows it. -/
  visited : ∃ before, Visits text ⟨before, d.extent.start, 0x3A :: t⟩ ∧ directiveAt? before t = some parts
  /-- What the directive consists of. -/
  written : d.extent.of text = [0x3A] ++ parts.name ++ [0x5B] ++ d.inner.of text ++ [0x5D] ++ attributes
  name : IsName parts.name
  group : attributes = [] ∨ IsGroup attributes
  key : d.key = Bytes.lowerAscii parts.name
  /-- The outline finds an opening bracket, and it is the one behind the name. -/
  opened : (d.extent.of text).indexOf? 0x5B = some (1 + parts.name.length)
  /-- The scan and the outline close it at the same place, and these are the brackets around the contents. -/
  closed : ∃ close, square? (t.drop parts.name.length) = some close ∧
    square? ((d.extent.of text).drop (1 + parts.name.length)) = some close ∧
    d.inner = ⟨d.extent.start + 1 + parts.name.length + 1, d.extent.start + 1 + parts.name.length + close⟩

/-- Each directive of an outline is written as a colon, a name, its contents in brackets and perhaps a group in braces,
and the brackets around its contents are those that the scan has matched. -/
theorem brackets_as_scanned (text : Bytes) :
    ∀ d ∈ (Outline.ofText text).directives, ∃ t parts attributes, d.AsScanned text t parts attributes := by
  intro d member
  obtain ⟨n, before, t, parts, rfl, visits, scanned, same⟩ := exists_visit member
  obtain ⟨-, tail, spelled⟩ := directiveAt?_spelled scanned
  obtain ⟨written, contents, -⟩ := ofNode_found visits.isIn scanned spelled
  rw [← same] at written contents
  obtain ⟨opened, closed, node⟩ := ofNode_spelled spelled.name written (spelled.closed_before _)
  refine ⟨t, parts, tail.take parts.attributes, ⟨before, visits, scanned⟩, ?_, spelled.name, ?_, ?_, ?_,
    parts.inner.length + 1, ?_, ?_, ?_⟩
  · rw [contents]
    refine written.trans ?_
    simp
  · exact spelled.attributes ▸ Document.Inline.isGroup_attributes tail
  · rw [node, same]
  · rw [Nat.add_comm]
    exact opened
  · rw [spelled.text, List.drop_left]
    exact spelled.closed
  · rw [Nat.add_comm]
    exact closed
  · simp only [node, Document.Node.extent, Extent.mk.injEq]
    omega

/-- An escaped bracket, another directive and a line break in the contents, and attributes behind them. -/
theorem brackets_as_scanned_nested :
    let text := utf8 "a :Ask[\\] x\n:b[y]]\x7bk\x7d z"
    let d : Directive := ⟨utf8 "ask", ⟨2, 21⟩, ⟨7, 17⟩⟩
    d ∈ (Outline.ofText text).directives ∧ ∃ t parts attributes, d.AsScanned text t parts attributes := by
  intro text d
  have node : ⟨.directive, utf8 "Ask", 2, 21, 0⟩ ∈ (Document.ofText text).nodes :=
    (List.mergeSort_perm _ _).mem_iff.mpr (List.mem_of_getElem? (show _[0]? = _ by decide +kernel))
  have member : d ∈ (Outline.ofText text).directives :=
    List.mem_map.mpr ⟨_, List.mem_filter.mpr ⟨node, rfl⟩, by decide⟩
  exact ⟨member, brackets_as_scanned text d member⟩

end Directive

end Colloquy
