import Colloquy.Preview.Block
import Colloquy.Proofs.Document.Literal
import Colloquy.Proofs.Outline.Query

/-! # Previews of the blocks of a document

The scanner finds the tag of a block whatever the case of its letters, and a preview looks for the tag in small
letters. So what the outline lists as a tool call or an attachment is a tag behind an angle bracket up to the case of
its letters, and it has a preview exactly if they are small.
-/

namespace Colloquy

open Document (StartsTag)

/-- The blocks of a kind. -/
def EmbeddedKind.blocks (kind : EmbeddedKind) (o : Outline) : List Extent :=
  match kind with
  | .toolCall => o.toolCalls
  | .attachment => o.attachments

/-- A text starts with the tag of a kind, in small letters. -/
def EmbeddedKind.IsWritten (kind : EmbeddedKind) (raw : Bytes) : Prop :=
  Bytes.startsWith raw (utf8 ("<" ++ kind.tag)) = true

theorem EmbeddedKind.bracket_tag (kind : EmbeddedKind) : utf8 ("<" ++ kind.tag) = 0x3C :: utf8 kind.tag := by
  cases kind <;> decide

theorem EmbeddedKind.mem_blocks {kind : EmbeddedKind} {text : Bytes} {e : Extent} :
    e ∈ kind.blocks (Outline.ofText text) ↔ ∃ n ∈ (Document.ofText text).nodes, n.kind = .html ∧
      n.name = utf8 kind.tag ∧ Bytes.contains (e.of text) (Document.Block.closingTag (utf8 kind.tag)) = true ∧
      n.extent = e := by
  have listed : ∀ tag, e ∈ Outline.closedBlocks (Document.ofText text) tag ↔
      ∃ n ∈ (Document.ofText text).nodes, n.kind = .html ∧ n.name = tag ∧
        Bytes.contains (e.of text) (Document.Block.closingTag tag) = true ∧ n.extent = e := by
    intro tag
    rw [Outline.closedBlocks, List.mem_filterMap]
    constructor
    · rintro ⟨n, member, kept⟩
      obtain ⟨among, literal⟩ := List.mem_filter.mp member
      rw [Option.ite_none_right_eq_some, Bool.and_eq_true] at kept
      obtain ⟨⟨named, closed⟩, same⟩ := kept
      cases same
      exact ⟨n, among, eq_of_beq literal, eq_of_beq named, closed, rfl⟩
    · rintro ⟨n, among, literal, named, closed, rfl⟩
      refine ⟨n, List.mem_filter.mpr ⟨among, beq_iff_eq.mpr literal⟩, if_pos ?_⟩
      rw [Bool.and_eq_true]
      exact ⟨beq_iff_eq.mpr named, closed⟩
  cases kind with
  | toolCall => exact listed _
  | attachment => exact listed _

/-- The first letter of the tag. -/
def EmbeddedKind.initial : EmbeddedKind → UInt8
  | .toolCall => 0x74
  | .attachment => 0x69

theorem EmbeddedKind.head?_tag (kind : EmbeddedKind) : (utf8 kind.tag).head? = some kind.initial := by
  cases kind <;> decide

namespace Embedded

/-- The raw text of a block: the tag in any case, then what ends its name, and further on the end of the tag. -/
def IsRaw (kind : EmbeddedKind) (raw : Bytes) : Prop :=
  ∃ name rest, raw = 0x3C :: (name ++ rest) ∧ Bytes.lowerAscii name = utf8 kind.tag ∧ 0x3E ∈ rest ∧
    ∀ b ∈ rest.head?, Marks.isWordByte b = false

variable {kind : EmbeddedKind} {raw : Bytes}

theorem isRaw_of_mem {text : Bytes} {e : Extent} (member : e ∈ kind.blocks (Outline.ofText text)) :
    IsRaw kind (e.of text) := by
  obtain ⟨n, among, literal, named, closed, rfl⟩ := EmbeddedKind.mem_blocks.mp member
  obtain ⟨name, rest, starts, lower, small, ends⟩ := Document.startsTag_of_literal among literal
  have close : 0x3E ∈ n.extent.of text := by
    apply (Bytes.infix_of_contains closed).subset
    rw [Document.Block.closingTag]
    exact List.mem_append_right _ (by decide)
  have raw : n.extent.of text = (0x3C :: (name ++ rest)).take (n.stop - n.start) := by
    rw [← starts]
    rfl
  -- The end of the closing tag is no part of the name, so the text goes on behind it.
  have outside : 0x3E ∉ 0x3C :: name := by
    intro inside
    cases List.mem_cons.mp inside with
    | inl bracket => cases bracket
    | inr inName => cases small _ inName
  cases Nat.lt_or_ge (n.stop - n.start) (0x3C :: name).length with
  | inl short =>
      rw [raw, ← List.cons_append, List.take_append_of_le_length (Nat.le_of_lt short)] at close
      exact absurd (List.mem_of_mem_take close) outside
  | inr long =>
      obtain ⟨k, known⟩ := Nat.exists_eq_add_of_le long
      rw [known, ← List.cons_append, List.take_length_add_append] at raw
      rw [raw] at close ⊢
      have behind : 0x3E ∈ rest.take k := (List.mem_append.mp close).resolve_left outside
      refine ⟨name, rest.take k, rfl, lower.trans named, behind, ?_⟩
      intro b first
      have separates : ∀ b ∈ [0x3E, Bytes.space, Bytes.tab, 0x2F, Bytes.cr, Bytes.lf], Marks.isWordByte b = false := by
        decide +kernel
      apply separates b
      apply ends b
      cases k with
      | zero => cases first
      | succ k =>
          rw [List.head?_take, if_neg (Nat.succ_ne_zero k)] at first
          exact first

theorem kind_of_ofKind? {b : Embedded} (found : ofKind? kind raw = some b) : b.kind = kind := by
  rw [ofKind?] at found
  cases opened : Element.openingTag? kind.tag raw with
  | none =>
      rw [opened] at found
      cases found
  | some parts =>
      rw [opened] at found
      cases found
      rfl

theorem isSome_ofKind? : (ofKind? kind raw).isSome = (Element.openingTag? kind.tag raw).isSome := by
  rw [ofKind?]
  cases Element.openingTag? kind.tag raw <;> rfl

/-- A raw text is written in small letters exactly if its name is the tag. -/
theorem isWritten_iff {name rest : Bytes} (same : name.length = (utf8 kind.tag).length) :
    kind.IsWritten (0x3C :: (name ++ rest)) ↔ name = utf8 kind.tag := by
  rw [EmbeddedKind.IsWritten, Bytes.startsWith, List.isPrefixOf_iff_prefix, kind.bracket_tag, List.cons_prefix_cons]
  constructor
  · rintro ⟨-, starts⟩
    have within := List.prefix_of_prefix_length_le starts (List.prefix_append name rest) (Nat.le_of_eq same.symm)
    exact (within.eq_of_length same.symm).symm
  · rintro rfl
    exact ⟨rfl, List.prefix_append _ _⟩

theorem IsRaw.isSome_iff (block : IsRaw kind raw) : (ofKind? kind raw).isSome = true ↔ kind.IsWritten raw := by
  obtain ⟨name, rest, rfl, lower, close, ends⟩ := block
  have same : name.length = (utf8 kind.tag).length := by rw [← lower, Bytes.lowerAscii, List.length_map]
  rw [isSome_ofKind?, Element.openingTag?, Bytes.after?]
  constructor
  · intro opened
    split at opened
    · rename_i written
      exact written
    · cases opened
  · intro written
    obtain rfl := (isWritten_iff same).mp written
    have behind : (0x3C :: (utf8 kind.tag ++ rest)).drop (utf8 ("<" ++ kind.tag)).length = rest := by
      rw [kind.bracket_tag]
      exact List.drop_left
    have boundary : (rest.head?.map Marks.isWordByte).getD false = false := by
      cases first : rest.head? with
      | none => rfl
      | some b => exact ends b first
    have closes : (Bytes.cut? rest 0x3E).isSome = true := by
      rw [Bytes.cut?, Option.isSome_map, Bytes.indexOf?, List.findIdx?_isSome, List.any_eq_true]
      exact ⟨0x3E, close, rfl⟩
    have starts : Bytes.startsWith (0x3C :: (utf8 kind.tag ++ rest)) (utf8 ("<" ++ kind.tag)) = true := written
    simp only [starts, if_true, behind, Option.bind_eq_bind, Option.bind_some, boundary, Bool.false_eq_true, if_false]
    exact closes

/-- The two tags start with different letters. -/
theorem IsRaw.ofKind?_other (block : IsRaw kind raw) (other : EmbeddedKind) (different : other ≠ kind) :
    ofKind? other raw = none := by
  obtain ⟨name, rest, rfl, lower, -⟩ := block
  have first := kind.head?_tag
  rw [← lower, Bytes.lowerAscii, List.head?_map, Option.map_eq_some_iff] at first
  obtain ⟨b, here, small⟩ := first
  have unwritten : ¬ Bytes.startsWith (0x3C :: (name ++ rest)) (utf8 ("<" ++ other.tag)) = true := by
    intro written
    rw [Bytes.startsWith, List.isPrefixOf_iff_prefix, other.bracket_tag, List.cons_prefix_cons] at written
    obtain ⟨-, more, same⟩ := written
    have heads := congrArg List.head? same
    rw [List.head?_append, List.head?_append, other.head?_tag, here, Option.some_or, Option.some_or,
      Option.some_inj] at heads
    subst heads
    cases kind <;> cases other <;> first | exact different rfl | cases small
  rw [ofKind?, Element.openingTag?, Bytes.after?, if_neg unwritten]
  rfl

theorem IsRaw.ofText?_eq (block : IsRaw kind raw) : ofText? raw = ofKind? kind raw := by
  have starts : raw.dropWhile Bytes.isSpaceByte = raw := by
    obtain ⟨name, rest, rfl, -⟩ := block
    exact List.dropWhile_cons_of_neg (by decide)
  rw [ofText?, starts]
  cases kind with
  | toolCall => rw [block.ofKind?_other .attachment nofun, Option.or_none]
  | attachment => rw [block.ofKind?_other .toolCall nofun, Option.none_or]

/-- A preview names the block, so it is not empty. -/
theorem render_ne_nil (b : Embedded) : b.render ≠ [] := by
  have named : b.title ≠ [] := by
    rw [title]
    cases b.kind with
    | toolCall => exact List.append_ne_nil_of_left_ne_nil (by decide) _
    | attachment => exact List.append_ne_nil_of_left_ne_nil (by decide) _
  rw [render, List.append_assoc]
  exact List.append_ne_nil_of_left_ne_nil named _

/-- A block has no preview exactly if its tag is not in small letters. -/
theorem IsRaw.preview_eq_nil_iff (block : IsRaw kind raw) : preview raw = [] ↔ ¬ kind.IsWritten raw := by
  rw [← block.isSome_iff, preview, block.ofText?_eq]
  cases ofKind? kind raw with
  | none => exact iff_of_true rfl nofun
  | some b => exact iff_of_false b.render_ne_nil (not_not_intro rfl)

end Embedded

end Colloquy
