import Colloquy.Proofs.Preview.Block
import Colloquy.Proofs.Server.Editing
import Colloquy.Server.Hover

/-! # Hovers over blocks

A hover looks for a directive first, then for a link, then for a block. No directive and no link touches a literal
block, and no other block holds a place in it. So a hover inside a block always shows the block.
-/

namespace Colloquy

open Document (Kind Node)

namespace Outline

variable {text : Bytes} {kind : EmbeddedKind} {e : Extent} {offset : Int}

/-- A place inside a block is touched by nothing that stands in a paragraph. -/
theorem touches_eq_false (member : e ∈ kind.blocks (ofText text)) (held : e.holds offset = true) {m : Node}
    (among : m ∈ (Document.ofText text).nodes) (inline : m.kind.IsInline) : m.extent.touches offset = false := by
  obtain ⟨n, node, literal, -, -, rfl⟩ := EmbeddedKind.mem_blocks.mp member
  rw [Extent.holds, Bool.and_eq_true, decide_eq_true_eq, decide_eq_true_eq] at held
  obtain ⟨starts, stops⟩ := held
  rw [Extent.touches, Bool.and_eq_false_iff, decide_eq_false_iff_not, decide_eq_false_iff_not]
  simp only [Node.extent] at starts stops ⊢
  cases Document.untouched_of_literal node literal among inline with
  | inl before => exact .inr (by omega)
  | inr behind => exact .inl (by omega)

theorem directiveAt?_of_block (member : e ∈ kind.blocks (ofText text)) (held : e.holds offset = true) :
    (ofText text).directiveAt? offset = none := by
  have none : ((ofText text).directives.takeWhile fun d => (d.extent.start : Int) ≤ offset).filter
      (fun d => offset ≤ d.extent.stop) = [] := by
    rw [List.filter_eq_nil_iff]
    intro d started reached
    have starts := List.mem_takeWhile_imp started
    obtain ⟨m, listed, rfl⟩ := List.mem_map.mp ((List.takeWhile_sublist _).subset started)
    obtain ⟨among, directive⟩ := List.mem_filter.mp listed
    have apart := touches_eq_false member held among (.inl (eq_of_beq directive))
    rw [Extent.touches, Bool.and_eq_false_iff] at apart
    cases apart with
    | inl late => cases starts.symm.trans late
    | inr early => cases reached.symm.trans early
  rw [directiveAt?, none]
  rfl

theorem linkAt?_of_block (member : e ∈ kind.blocks (ofText text)) (held : e.holds offset = true) :
    (ofText text).linkAt? offset = none := by
  have found := Extent.filter_firstPassing? Link.extent (precedes_links text) offset (fun stop => offset ≤ (stop : Int))
    (by
      intro m n le
      simp only [decide_eq_true_eq]
      omega)
  rw [linkAt?, found, List.find?_eq_none]
  intro l listed touched
  obtain ⟨m, node, rfl⟩ := List.mem_map.mp listed
  obtain ⟨among, link⟩ := List.mem_filter.mp node
  have apart := touches_eq_false member held among (.inr (eq_of_beq link))
  cases touched.symm.trans apart

/-- No two literal blocks hold one place. -/
theorem eq_of_holds {a b : Node} (memberA : a ∈ (Document.ofText text).nodes) (literalA : a.kind = .html)
    (memberB : b ∈ (Document.ofText text).nodes) (literalB : b.kind = .html) (heldA : a.extent.holds offset = true)
    (heldB : b.extent.holds offset = true) : a = b := by
  have plain : ¬ Kind.Holds .html := by simp [Kind.Holds]
  rw [Extent.holds, Bool.and_eq_true, decide_eq_true_eq, decide_eq_true_eq] at heldA heldB
  simp only [Node.extent] at heldA heldB
  have nested := Document.nested_bodyNodes (Document.body_le text)
  rcases nested.before_or_after memberA memberB with same | ⟨-, apart | inside⟩ | ⟨-, apart | inside⟩
  · exact same
  · omega
  · exact absurd (literalA ▸ inside.2) plain
  · omega
  · exact absurd (literalB ▸ inside.2) plain

/-- Of stretches in a row, the one found is the one that holds the place. -/
theorem extentAt?_eq_some_iff {es : List Extent} (row : es.Pairwise fun a b => a.Precedes b) :
    extentAt? es offset = some e ↔ e ∈ es ∧ e.holds offset = true := by
  have listed : e ∈ es.filter (fun e => e.holds offset) ↔ e ∈ (extentAt? es offset).toList := by
    rw [filter_holds_eq_toList row]
  rw [List.mem_filter, Option.mem_toList] at listed
  exact listed.symm

/-- The block that holds a place is the one that is found there. -/
theorem blockAt?_of_mem (member : e ∈ kind.blocks (ofText text)) (held : e.holds offset = true) :
    ((ofText text).toolCallAt? offset).or ((ofText text).attachmentAt? offset) = some e := by
  have calls : ∀ e', (ofText text).toolCallAt? offset = some e' ↔
      e' ∈ EmbeddedKind.toolCall.blocks (ofText text) ∧ e'.holds offset = true :=
    fun _ => extentAt?_eq_some_iff (precedes_closedBlocks text toolCallTag)
  have attachments : ∀ e', (ofText text).attachmentAt? offset = some e' ↔
      e' ∈ EmbeddedKind.attachment.blocks (ofText text) ∧ e'.holds offset = true :=
    fun _ => extentAt?_eq_some_iff (precedes_closedBlocks text attachmentTag)
  cases kind with
  | toolCall => rw [(calls e).mpr ⟨member, held⟩, Option.some_or]
  | attachment =>
      have none : (ofText text).toolCallAt? offset = none := by
        apply Option.eq_none_iff_forall_ne_some.mpr
        intro e' found
        obtain ⟨member', held'⟩ := (calls e').mp found
        obtain ⟨n, node, literal, named, -, rfl⟩ := EmbeddedKind.mem_blocks.mp member
        obtain ⟨n', node', literal', named', -, rfl⟩ := EmbeddedKind.mem_blocks.mp member'
        obtain rfl := eq_of_holds node literal node' literal' held held'
        exact absurd (named.symm.trans named') (by decide)
      rw [none, Option.none_or, (attachments e).mpr ⟨member, held⟩]

end Outline

namespace DocumentView

variable {v : DocumentView} {t : Bytes} {kind : EmbeddedKind} {e : Extent}

/-- A hover inside a block shows the block. -/
theorem hover?_of_block (shows : v.Shows t) (member : e ∈ kind.blocks (Outline.ofText t)) (limits : PreviewLimits)
    {p : Position} (held : e.holds (v.offset p) = true) : v.hover? limits p = some (v.blockHover e) := by
  rw [hover?, plainHover?, shows.outline, Outline.directiveAt?_of_block member held, Option.bind_none]
  simp only
  rw [Outline.linkAt?_of_block member held]
  simp only
  rw [Outline.blockAt?_of_mem member held]
  rfl

/-- What the outline lists as a block is its tag up to the case of letters. It is accepted as a block of its kind if
they are small, and refused if not. A hover inside it shows it, and shows nothing exactly if it is refused. -/
theorem block_accepted_unless_capitals (member : e ∈ kind.blocks (Outline.ofText t)) :
    (∃ name rest, e.of t = 0x3C :: (name ++ rest) ∧ Bytes.lowerAscii name = utf8 kind.tag) ∧
    (kind.IsWritten (e.of t) → ∃ b, Embedded.ofText? (e.of t) = some b ∧ b.kind = kind) ∧
    (¬ kind.IsWritten (e.of t) → Embedded.ofText? (e.of t) = none) ∧
    ∀ v : DocumentView, v.Shows t → ∀ limits p, e.holds (v.offset p) = true →
      ∃ h, v.hover? limits p = some h ∧ h.range = v.range e ∧ (h.markdown = [] ↔ ¬ kind.IsWritten (e.of t)) := by
  have block := Embedded.isRaw_of_mem member
  refine ⟨?_, ?_, ?_, ?_⟩
  · obtain ⟨name, rest, raw, lower, -⟩ := block
    exact ⟨name, rest, raw, lower⟩
  · intro written
    obtain ⟨b, found⟩ := Option.isSome_iff_exists.mp (block.isSome_iff.mpr written)
    exact ⟨b, block.ofText?_eq.trans found, Embedded.kind_of_ofKind? found⟩
  · intro capital
    rw [block.ofText?_eq, ← Option.not_isSome_iff_eq_none, block.isSome_iff]
    exact capital
  · intro v shows limits p held
    refine ⟨v.blockHover e, hover?_of_block shows member limits held, rfl, ?_⟩
    rw [blockHover, shows.text_eq]
    exact block.preview_eq_nil_iff

/-- A tool call whose tag does not end on its first line. -/
theorem block_accepted_unless_capitals_two_lines :
    let t := utf8 "a\n\n<tool-call\nwith=\"search\"></tool-call>\n"
    let host : Host := ⟨.empty, utf8 "/", []⟩
    let v := ((Server.start Settings.default ⟨[], false⟩).viewOf host ⟨utf8 "file:///d", t, 1⟩).1
    let e : Extent := ⟨3, 41⟩
    e ∈ EmbeddedKind.toolCall.blocks (Outline.ofText t) ∧ v.Shows t ∧
    (∃ b, Embedded.ofText? (e.of t) = some b ∧ b.kind = .toolCall) ∧
    ∃ h, v.hover? ⟨0, 0⟩ ⟨3, 0⟩ = some h ∧ h.markdown ≠ [] := by
  intro t host v e
  have shows : v.Shows t := Server.shows_viewOf (Server.fresh_start Settings.default ⟨[], false⟩).coherent.cache _ _
  have only : EmbeddedKind.toolCall.blocks (Outline.ofText t) = [e] := by decide +kernel
  have member : e ∈ EmbeddedKind.toolCall.blocks (Outline.ofText t) := only ▸ List.mem_singleton_self e
  have written : EmbeddedKind.toolCall.IsWritten (e.of t) := by
    unfold EmbeddedKind.IsWritten
    decide +kernel
  obtain ⟨-, accepted, -, hovers⟩ := block_accepted_unless_capitals member
  obtain ⟨h, found, -, empty⟩ := hovers v shows ⟨0, 0⟩ ⟨3, 0⟩ (by decide +kernel)
  exact ⟨member, shows, accepted written, h, found, fun none => empty.mp none written⟩

/-- A tag in capitals opens a tool call that the outline lists and the preview refuses. -/
theorem block_in_capitals_refused :
    let t := utf8 "<TOOL-CALL with=\"search\"></tool-call>\n"
    let host : Host := ⟨.empty, utf8 "/", []⟩
    let v := ((Server.start Settings.default ⟨[], false⟩).viewOf host ⟨utf8 "file:///d", t, 1⟩).1
    let e : Extent := ⟨0, 38⟩
    e ∈ EmbeddedKind.toolCall.blocks (Outline.ofText t) ∧ v.Shows t ∧ Embedded.ofText? (e.of t) = none ∧
    v.hover? ⟨0, 0⟩ ⟨0, 1⟩ = some ⟨[], v.range e⟩ := by
  intro t host v e
  have shows : v.Shows t := Server.shows_viewOf (Server.fresh_start Settings.default ⟨[], false⟩).coherent.cache _ _
  have only : EmbeddedKind.toolCall.blocks (Outline.ofText t) = [e] := by decide +kernel
  have member : e ∈ EmbeddedKind.toolCall.blocks (Outline.ofText t) := only ▸ List.mem_singleton_self e
  have refused : Embedded.ofText? (e.of t) = none := by decide
  have empty : Embedded.preview (e.of v.text) = [] := by
    rw [shows.text_eq, Embedded.preview, refused]
    rfl
  refine ⟨member, shows, refused, ?_⟩
  rw [hover?_of_block shows member ⟨0, 0⟩ (by decide), blockHover, empty]

end DocumentView

end Colloquy
