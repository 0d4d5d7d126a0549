import Colloquy.Proofs.Document.Relocation
import Colloquy.Proofs.Expansion.Contents

/-! # The body is scanned without its header

Whatever the header is, it decides nothing about the body except where it starts: the scan looks at no byte in front of
the body. So a text behind a line feed, in front of which no header can stand, shows what the text is as a body.
-/

namespace Colloquy

namespace Document

/-- A text read as a body without a header, also where it starts like one. -/
def asBody (t : Bytes) : Document := ⟨t, none, bodyNodes t 0⟩

theorem bodyNodes_move (front t : Bytes) :
    bodyNodes (front ++ t) front.length = (bodyNodes t 0).map (Node.move front.length) := by
  have length : (front ++ t).length = t.length + front.length := by rw [List.length_append, Nat.add_comm]
  have found : pick (fun _ => true) (bodyNodes (front ++ t) front.length) =
      (pick (fun _ => true) (bodyNodes t 0)).map (Node.relocate (· + front.length)) :=
    bodyNodes_relocate (fun _ _ lt => Nat.add_lt_add_right lt _) (Nat.zero_le _) (by omega) ?lines
      (fun l _ => Nat.add_right_comm ..) length ?agrees
  · rw [pick_all, pick_all] at found
    exact found
  case lines =>
    have moved := Line.ofText_move front.length 0 t
    rw [Nat.zero_add] at moved
    rw [List.drop_left]
    exact moved
  case agrees =>
    intro start stop _ _ le
    have same := Bytes.slice_move front [] start le
    rw [List.append_nil] at same
    rw [pick_all, pick_all, Block.flush, Block.flush, same]
    exact Inline.scan_move front.length none start _

theorem length_front (text : Bytes) : (text.take (ofText text).body).length = (ofText text).body :=
  List.length_take_of_le (body_le text)

theorem nodes_ofText (text : Bytes) : (ofText text).nodes =
    (bodyNodes (text.drop (ofText text).body) 0).map (Node.move (ofText text).body) := by
  have moved := bodyNodes_move (text.take (ofText text).body) (text.drop (ofText text).body)
  rw [List.take_append_drop, length_front] at moved
  exact moved

theorem stop_le_of_mem_bodyNodes {t : Bytes} {n : Node} (member : n ∈ bodyNodes t 0) : n.stop ≤ t.length :=
  ((nested_bodyNodes (Nat.zero_le _)).bounds n member).2.2

theorem nodes_behind_lf (t : Bytes) : (ofText (Bytes.lf :: t)).nodes = (bodyNodes t 0).map (Node.move 1) :=
  (nodes_lf t).trans (bodyNodes_move [Bytes.lf] t)

end Document

namespace Outline

/-- Behind other text, nodes show the directives that they show without it. -/
theorem directives_move (front : Bytes) {t : Bytes} {ns : List Document.Node} (inside : ∀ n ∈ ns, n.stop ≤ t.length) :
    (((ns.map (Document.Node.move front.length)).filter fun n => n.kind == .directive).map
      (Directive.ofNode (front ++ t))) =
      ((ns.filter fun n => n.kind == .directive).map (Directive.ofNode t)).map (Directive.move front.length) := by
  rw [List.filter_map, List.map_map, List.map_map]
  refine List.map_congr_left fun n member => ?_
  have moved := Directive.ofNode_move front [] (inside n (List.mem_of_mem_filter member))
  rw [List.append_nil] at moved
  exact moved

end Outline

namespace Expansions

open Document (Node asBody)

theorem directives_eq_asBody (t : Bytes) :
    directives t = Outline.outermost (Outline.ofDocument (asBody t)).directives := by
  have found : (Outline.ofText (Bytes.lf :: t)).directives =
      (Outline.ofDocument (asBody t)).directives.map (Directive.move 1) := by
    rw [directives_ofText, Document.nodes_behind_lf]
    exact Outline.directives_move [Bytes.lf] fun _ => Document.stop_le_of_mem_bodyNodes
  rw [directives, found, Outline.outermost_move, List.map_map]
  exact List.map_id _

theorem outermost_ofText (text : Bytes) : Outline.outermost (Outline.ofText text).directives =
    (directives (text.drop (Document.ofText text).body)).map (Directive.move (Document.ofText text).body) := by
  have found := Outline.directives_move (text.take (Document.ofText text).body)
    fun _ => Document.stop_le_of_mem_bodyNodes (t := text.drop (Document.ofText text).body)
  rw [List.take_append_drop, Document.length_front] at found
  rw [directives_eq_asBody, ← Outline.outermost_move, directives_ofText, Document.nodes_ofText, found]
  rfl

/-- The header decides nothing about the body but where it starts. The nodes of a text are those of its body behind a
line feed, so texts with the same body have the same nodes up to where the body starts; and what an expansion sees of a
text, even one that starts like a header, are the outermost directives of the text read as a body. -/
theorem body_scan_ignores_header :
    (∀ text, let body := (Document.ofText text).body
      let bare := (Document.ofText (Bytes.lf :: text.drop body)).nodes
      (∀ n ∈ bare, 1 ≤ n.start ∧ 1 ≤ n.stop) ∧
        (Document.ofText text).nodes = bare.map (Node.relocate fun o => o + body - 1)) ∧
    (∀ text text', let body := (Document.ofText text).body
      let body' := (Document.ofText text').body
      text.drop body = text'.drop body' → body ≤ body' →
        (Document.ofText text').nodes = (Document.ofText text).nodes.map (Node.move (body' - body))) ∧
    (∀ t, directives t = Outline.outermost (Outline.ofDocument (asBody t)).directives ∧
      ∀ text, let body := (Document.ofText text).body
        text.drop body = t →
          Outline.outermost (Outline.ofText text).directives = (directives t).map (Directive.move body)) := by
  refine ⟨fun text => ⟨fun n member => ?_, ?_⟩, fun text text' same le => ?_, fun t => ⟨directives_eq_asBody t, ?_⟩⟩
  · have bounds := (Document.nested_lf _).bounds n member
    omega
  · rw [Document.nodes_behind_lf, List.map_map, Document.nodes_ofText]
    refine List.map_congr_left fun n _ => ?_
    simp only [Function.comp_apply, Node.relocate, Node.move, Node.mk.injEq, true_and, and_true]
    omega
  · rw [Document.nodes_ofText text', ← same, Document.nodes_ofText text, List.map_map]
    refine List.map_congr_left fun n _ => ?_
    simp only [Function.comp_apply, Node.move, Node.mk.injEq, true_and, and_true]
    omega
  · intro text body same
    rw [← same]
    exact outermost_ofText text

/-- A text with a header and its body alone. -/
theorem body_scan_ignores_header_moved :
    let bare := utf8 ":b[c] `:d[e]`"
    let headed := utf8 "---\na: :x[y]\n---\n:b[c] `:d[e]`"
    headed.drop (Document.ofText headed).body = bare ∧
      (Document.ofText bare).nodes = [⟨.directive, utf8 "b", 0, 5, 0⟩] ∧
      (Document.ofText headed).nodes = [⟨.directive, utf8 "b", 17, 22, 0⟩] ∧
      directives bare = [⟨utf8 "b", ⟨0, 5⟩, ⟨3, 4⟩⟩] ∧
      Outline.outermost (Outline.ofText headed).directives = [⟨utf8 "b", ⟨17, 22⟩, ⟨20, 21⟩⟩] := by
  have nodes : (Document.ofText (utf8 ":b[c] `:d[e]`")).nodes = [⟨.directive, utf8 "b", 0, 5, 0⟩] := by decide +kernel
  have found : directives (utf8 ":b[c] `:d[e]`") = [⟨utf8 "b", ⟨0, 5⟩, ⟨3, 4⟩⟩] := by decide +kernel
  have same : (utf8 "---\na: :x[y]\n---\n:b[c] `:d[e]`").drop
      (Document.ofText (utf8 "---\na: :x[y]\n---\n:b[c] `:d[e]`")).body = utf8 ":b[c] `:d[e]`" := by decide
  have body : (Document.ofText (utf8 "---\na: :x[y]\n---\n:b[c] `:d[e]`")).body = 17 := by decide
  obtain ⟨-, moved, shown⟩ := body_scan_ignores_header
  refine ⟨same, nodes, ?_, found, ?_⟩
  · have moved := moved (utf8 ":b[c] `:d[e]`") (utf8 "---\na: :x[y]\n---\n:b[c] `:d[e]`") same.symm (Nat.zero_le _)
    rw [moved, nodes, body]
    rfl
  · rw [(shown (utf8 ":b[c] `:d[e]`")).2 _ same, found, body]
    rfl

end Expansions

end Colloquy
