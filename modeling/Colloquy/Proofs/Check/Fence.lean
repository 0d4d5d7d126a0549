import Colloquy.Check.Basic
import Colloquy.Proofs.Document.Fence
import Colloquy.Proofs.Outline.Inner
import Colloquy.Proofs.Outline.Turn
import Mathlib.Data.List.TakeWhile

/-! # Fenced code and findings

What is reported about a document depends on code inside a fence as little as its nodes do. The outline reads the bytes
of directives, links and literal blocks, none of which lies in the code, and the rules read those of the header, of the
first line and of what the outline points to.
-/

namespace Colloquy

theorem Bytes.slice_congr {t t' : Bytes} {start stop lo hi : Nat} (same : t'.slice lo hi = t.slice lo hi)
    (left : lo ≤ start) (right : stop ≤ hi) : t'.slice start stop = t.slice start stop := by
  have inside : ∀ t : Bytes, t.slice start stop = Bytes.slice (t.slice lo hi) (start - lo) (stop - lo) := by
    intro t
    rw [slice, slice, slice, List.drop_take, List.drop_drop, List.take_take]
    congr 1
    · omega
    · rw [Nat.add_sub_cancel' left]
  rw [inside t', inside t, same]

theorem Directive.start_le_inner {text : Bytes} {n : Document.Node} (le : n.start ≤ n.stop) :
    n.start ≤ (ofNode text n).inner.start := by
  unfold ofNode
  simp only
  split
  · exact le
  · split <;> simp only <;> omega

theorem Link.start_le_url {text : Bytes} {n : Document.Node} : n.start ≤ (ofNode text n).url.start :=
  Nat.le_add_right _ _

namespace Outline

open Document (Node)

variable {d d' : Document}

/-- The outline looks at the bytes of the nodes that may not span code, and of no others. -/
theorem ofDocument_congr (header : d'.header = d.header) (nodes : d'.nodes = d.nodes)
    (length : d'.text.length = d.text.length)
    (same : ∀ n ∈ d.nodes, ¬ n.MaySpan → n.extent.of d'.text = n.extent.of d.text) : ofDocument d' = ofDocument d := by
  have directives : (d.nodesOf .directive).map (Directive.ofNode d'.text) =
      (d.nodesOf .directive).map (Directive.ofNode d.text) := by
    refine List.map_congr_left fun n member => ?_
    obtain ⟨node, kind⟩ := List.mem_filter.mp member
    have slice : d'.text.slice n.start n.stop = _ := same n node (by simp [Node.MaySpan, eq_of_beq kind])
    rw [Directive.ofNode, Directive.ofNode, slice]
    rfl
  have links : (d.nodesOf .link).map (Link.ofNode d'.text) = (d.nodesOf .link).map (Link.ofNode d.text) := by
    refine List.map_congr_left fun n member => ?_
    obtain ⟨node, kind⟩ := List.mem_filter.mp member
    have slice : d'.text.slice n.start n.stop = _ := same n node (by simp [Node.MaySpan, eq_of_beq kind])
    rw [Link.ofNode, Link.ofNode, slice]
    rfl
  have kinds : ∀ kind, d'.nodesOf kind = d.nodesOf kind := fun kind => by rw [Document.nodesOf, nodes, Document.nodesOf]
  have blocks : ∀ tag, closedBlocks d' tag = closedBlocks d tag := by
    intro tag
    rw [closedBlocks, closedBlocks, kinds]
    refine List.filterMap_congr fun n member => ?_
    obtain ⟨node, kind⟩ := List.mem_filter.mp member
    rw [same n node (by simp [Node.MaySpan, eq_of_beq kind])]
  have turns : turnsOf d' = turnsOf d := by rw [turnsOf, turnsOf, Document.body, header, nodes, length, Document.body]
  simp only [ofDocument, kinds, directives, links, turns, blocks, Document.body, header]

end Outline

namespace Rule

variable {s : Subject} {document : Document}

/-- The rules look at a text only on its first line and where directives and links have their contents. -/
theorem structural_congr_text (header : document.header = s.document.header)
    (first : Span.restOfLine document.text 0 = Span.restOfLine s.text 0)
    (directives : ∀ d ∈ s.outline.directives, d.inner.of document.text = d.inner.of s.text)
    (links : ∀ l ∈ s.outline.links, l.url.of document.text = l.url.of s.text) :
    structural { s with document } = structural s := by
  have presence : headerPresence { s with document } = headerPresence s := by
    simp only [headerPresence, header, Subject.text, first]
    rfl
  have references : references { s with document } = references s := by
    refine List.filterMap_congr fun d member => ?_
    simp only [Subject.text, directives d member]
    rfl
  have links : Rule.links { s with document } = Rule.links s := by
    refine List.filterMap_congr fun l member => ?_
    simp only [Subject.text, links l member]
    rfl
  rw [structural, presence, references, links]
  rfl

end Rule

/-- The rest of the first line lies in the whole lines that a text starts with. -/
theorem Span.restOfLine_append {front : Bytes} (whole : front.IsLines) (some : front ≠ []) (u : Bytes) :
    restOfLine (front ++ u) 0 = restOfLine front 0 := by
  have stops : (Position.lineOf front).length ≠ front.length := by
    intro all
    have line : Position.lineOf front = front := (List.takeWhile_prefix _).eq_of_length all
    have free := List.takeWhile_eq_self_iff.mp line _ (List.getLast_mem some)
    rw [whole _ (List.getLast?_eq_some_getLast some)] at free
    cases free
  have line : Position.lineOf (front ++ u) = Position.lineOf front := by
    rw [Position.lineOf, List.takeWhile_append]
    exact if_neg stops
  simp only [restOfLine, lineStop, Int.toNat_zero, Nat.zero_min, List.drop_zero, line]

namespace Check

open Document (Node StaysFenced stateBehind)

section

variable {front inner inner' : Bytes} {mark : UInt8} {length start : Nat} {stack : List Document.Block.Opening}

theorem headerText_append (u : Bytes)
    (header : Document.Header.ofText? (front ++ u) = Document.Header.ofText? front) :
    (Document.ofText (front ++ u)).headerText = (Document.ofText front).headerText := by
  simp only [Document.headerText, Document.ofText, header]
  cases found : Document.Header.ofText? front with
  | none => rfl
  | some h => exact Document.Inline.slice_append_of_le _ (Document.Header.content_bounds found).2

/-- A node in front of the code or behind it has the same bytes in both texts. -/
theorem same_of_aside {n : Node} (size : inner'.length = inner.length) (behind : Bytes) {lo hi : Nat}
    (bounds : lo ≤ n.start ∧ n.start < n.stop ∧ n.stop ≤ hi)
    (aside : n.stop ≤ front.length ∨ front.length + inner.length ≤ n.start) :
    n.extent.of (front ++ inner' ++ behind) = n.extent.of (front ++ inner ++ behind) := by
  have order := Nat.le_of_lt bounds.2.1
  obtain left | right := aside
  · rw [List.append_assoc, List.append_assoc]
    exact Document.coincide_front front _ _ n.start n.stop (Nat.zero_le _) order left
  · exact Document.coincide_behind front size behind n.stop n.start n.stop right order (Nat.le_refl _)

/-- Whatever code stands inside an open fence, a text has the same header, nodes and outline, and the same is found when
it is checked: the code can neither create nor hide anything nor move it. -/
theorem fenced_code_is_opaque (whole : front.IsLines) (opened : stateBehind front = ⟨.fenced mark length start, stack⟩)
    (stays : StaysFenced mark length front.length inner) (stays' : StaysFenced mark length front.length inner')
    (size : inner'.length = inner.length) (behind : Bytes) :
    let t := front ++ inner ++ behind
    let t' := front ++ inner' ++ behind
    (Document.ofText t').header = (Document.ofText t).header ∧
    (Document.ofText t').nodes = (Document.ofText t).nodes ∧
    (∀ n ∈ (Document.ofText t).nodes,
      n.kind = .fencedCode ∨ n.kind = .container ∨ n.stop ≤ front.length ∨ front.length + inner.length ≤ n.start) ∧
    Outline.ofText t' = Outline.ofText t ∧
    ∀ outer docPath limit, document limit (Subject.ofLayers outer docPath t') =
        document limit (Subject.ofLayers outer docPath t) ∧
      ∀ registry, models limit registry (Subject.ofLayers outer docPath t') =
        models limit registry (Subject.ofLayers outer docPath t) := by
  intro t t'
  have header : (Document.ofText t').header = (Document.ofText t).header :=
    (Document.run_fenced whole opened stays' behind).1.trans (Document.run_fenced whole opened stays behind).1.symm
  have nodes : (Document.ofText t').nodes = (Document.ofText t).nodes :=
    Document.nodes_fenced whole opened stays stays' size behind
  have spares := fun n member => Document.aside_of_fenced (n := n) whole opened stays behind member
  have bounds := (Document.nested_bodyNodes (Document.body_le t)).bounds
  have same := fun n member plain => same_of_aside (n := n) size behind (bounds n member)
    ((spares n member).resolve_left plain)
  have outline : Outline.ofText t' = Outline.ofText t :=
    Outline.ofDocument_congr header nodes (by simp only [Document.ofText, t, t', List.length_append, size]) same
  refine ⟨header, nodes, fun n member => or_assoc.mp (spares n member), outline, fun outer docPath limit => ?_⟩
  have text : (Document.ofText t').headerText = (Document.ofText t).headerText := by
    have lies := fun inner (stays : StaysFenced mark length front.length inner) => headerText_append (inner ++ behind)
      (List.append_assoc front inner behind ▸ (Document.run_fenced whole opened stays behind).1)
    simp only [t, t', List.append_assoc, lies inner stays, lies inner' stays']
  have read : Subject.ofLayers outer docPath t' =
      { Subject.ofLayers outer docPath t with document := Document.ofText t' } := by
    have starts : (Document.ofText t').headerStart = (Document.ofText t).headerStart := by
      rw [Document.headerStart, header, Document.headerStart]
    have outlines : Outline.ofDocument (Document.ofText t') = Outline.ofDocument (Document.ofText t) := outline
    simp only [Subject.ofLayers, outlines, text, starts]
  have found : Rule.structural { Subject.ofLayers outer docPath t with document := Document.ofText t' } =
      Rule.structural (Subject.ofLayers outer docPath t) :=
    Rule.structural_congr_text header ?first ?directives ?links
  rw [read, document, found]
  exact ⟨rfl, fun _ => rfl⟩
  case first =>
    have some : front ≠ [] := List.ne_nil_of_length_pos (Nat.zero_lt_of_lt (Document.body_lt_of_fenced opened))
    change Span.restOfLine (front ++ inner' ++ behind) 0 = Span.restOfLine (front ++ inner ++ behind) 0
    rw [List.append_assoc, List.append_assoc, Span.restOfLine_append whole some, Span.restOfLine_append whole some]
  case directives =>
    intro d listed
    obtain ⟨n, node, rfl⟩ := List.mem_map.mp listed
    obtain ⟨node, kind⟩ := List.mem_filter.mp node
    have inside := bounds n node
    have order := Nat.le_of_lt inside.2.1
    exact Bytes.slice_congr (same n node (by simp [Node.MaySpan, eq_of_beq kind])) (Directive.start_le_inner order)
      (Directive.inner_le order inside.2.2).2
  case links =>
    intro l listed
    obtain ⟨n, node, rfl⟩ := List.mem_map.mp listed
    obtain ⟨node, kind⟩ := List.mem_filter.mp node
    have inside := bounds n node
    exact Bytes.slice_congr (same n node (by simp [Node.MaySpan, eq_of_beq kind])) Link.start_le_url
      (Link.url_le (Nat.le_of_lt inside.2.1) inside.2.2).2

/-- A directive and a fence line of another kind are the same to what is around them. -/
theorem fenced_code_is_opaque_directive :
    let front := utf8 ":::a\n```\n"
    let behind := utf8 "```\n:ask[d]\n:::\n"
    stateBehind front = ⟨.fenced 0x60 3 5, [⟨utf8 "a", 3, 0⟩]⟩ ∧
    Outline.ofText (front ++ utf8 "~~~~~~~\n" ++ behind) = Outline.ofText (front ++ utf8 ":ask[c]\n" ++ behind) ∧
    (Document.ofText (front ++ utf8 "~~~~~~~\n" ++ behind)).nodes =
      (Document.ofText (front ++ utf8 ":ask[c]\n" ++ behind)).nodes ∧
    ⟨.directive, utf8 "ask", 21, 28, 0⟩ ∈ (Document.ofText (front ++ utf8 "~~~~~~~\n" ++ behind)).nodes := by
  intro front behind
  have opened : stateBehind front = ⟨.fenced 0x60 3 5, [⟨utf8 "a", 3, 0⟩]⟩ := by decide +kernel
  have stays : StaysFenced 0x60 3 front.length (utf8 ":ask[c]\n") := ⟨by decide +kernel, by decide +kernel⟩
  have stays' : StaysFenced 0x60 3 front.length (utf8 "~~~~~~~\n") := ⟨by decide +kernel, by decide +kernel⟩
  have whole : front.IsLines := by decide +kernel
  obtain ⟨-, nodes, -, outline, -⟩ := fenced_code_is_opaque whole opened stays stays' (by decide +kernel) behind
  refine ⟨opened, outline, nodes, (List.mergeSort_perm _ _).mem_iff.mpr ?_⟩
  exact List.mem_of_getElem? (show _[1]? = _ by decide +kernel)

end

end Check

end Colloquy
