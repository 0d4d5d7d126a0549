import Colloquy.Proofs.Document.Paragraph
import Colloquy.Proofs.Expansion.Composition

/-! # What expansion finds between brackets

The scan of a document reads the contents of a directive's brackets as part of the paragraph that the directive stands
in. Expansion scans the same contents as a text of their own, in which the first line has to begin a paragraph: where
it is indented like code, or opens a fence, a container or a literal block, what the document shows on it is not found.
Everywhere else the two agree.
-/

namespace Colloquy

namespace Bytes

theorem splitOn_concat {sep b : UInt8} (other : b ≠ sep) (t : Bytes) :
    ∃ pieces last, splitOn t sep = pieces ++ [last] ∧ splitOn (t ++ [b]) sep = pieces ++ [last ++ [b]] := by
  induction t with
  | nil => exact ⟨[], [], rfl, by simp [splitOn, other]⟩
  | cons c t ih =>
      obtain ⟨pieces, last, split, split'⟩ := ih
      rw [List.cons_append, splitOn, splitOn, split, split']
      by_cases same : (c == sep) = true
      · exact ⟨[] :: pieces, last, by rw [if_pos same]; rfl, by rw [if_pos same]; rfl⟩
      · rw [if_neg same, if_neg same]
        cases pieces with
        | nil => exact ⟨[], c :: last, rfl, rfl⟩
        | cons piece pieces => exact ⟨(c :: piece) :: pieces, last, rfl, rfl⟩

theorem slice_move (front : Bytes) {t : Bytes} (behind : Bytes) (start : Nat) {stop : Nat} (le : stop ≤ t.length) :
    (front ++ t ++ behind).slice (start + front.length) (stop + front.length) = t.slice start stop := by
  have inside : stop + front.length ≤ (front ++ t).length := by
    rw [List.length_append]
    omega
  rw [Document.Inline.slice_append_of_le _ inside, slice, slice, Nat.add_comm start, ← List.drop_drop, List.drop_left]
  congr 1
  omega

end Bytes

/-! ## Lines of the text around and of the contents -/

namespace Document

def Line.move (k : Nat) (l : Line) : Line := { l with start := l.start + k, next := l.next + k }

theorem Line.ofText_move (k start : Nat) (t : Bytes) :
    ofText (start + k) t = (ofText start t).map (Line.move k) := by
  unfold ofText
  fun_induction layOut start (t.splitOn Bytes.lf) with
  | case1 start => rfl
  | case2 start last empty => rw [layOut.eq_2, if_pos empty, List.map_nil]
  | case3 start last some =>
      rw [layOut.eq_2, if_neg some, Nat.add_right_comm]
      rfl
  | case4 start piece pieces more ih =>
      rw [layOut.eq_3 _ _ _ more, List.map_cons, ← ih, Line.move, Nat.add_right_comm start k, Nat.add_right_comm _ k]

namespace Block

theorem openingFence?_append {t : Bytes} (opens : (openingFence? t).isSome = true) {tail : Bytes}
    (other : ∀ b ∈ tail, b ≠ 0x60 ∧ b ≠ 0x7E) : (openingFence? (t ++ tail)).isSome = true := by
  cases t with
  | nil => cases opens
  | cons mark t =>
      simp only [List.cons_append, openingFence?] at opens ⊢
      split at opens
      · rename_i known
        have stops : ∀ b ∈ tail.head?, (b == mark) = false := by
          intro b first
          have differs := other b (List.mem_of_mem_head? first)
          simp only [Bool.or_eq_true, beq_iff_eq] at known
          obtain rfl | rfl := known <;> simp [differs]
        have run := Inline.takeWhile_append_of_stop stops (mark :: t)
        have short := (List.takeWhile_prefix (l := mark :: t) (· == mark)).length_le
        have behind : (mark :: t ++ tail).drop _ = _ := List.drop_append_of_le_length short
        have absent : List.contains tail 0x60 = false := by
          simpa using fun member => (other 0x60 member).1 rfl
        rw [List.cons_append] at run behind
        simp only [if_pos known, run, behind, List.contains_append, absent, Bool.or_false]
        exact opens
      · cases opens

/-- What stands behind a line does not undo that it ends a paragraph. -/
theorem breaks_append {t : Bytes} (ends : breaks t = true) {tail : Bytes} (other : ∀ b ∈ tail, b ≠ 0x60 ∧ b ≠ 0x7E) :
    breaks (t ++ tail) = true := by
  simp only [breaks, Bool.or_eq_true, Bool.and_eq_true, decide_eq_true_eq] at ends ⊢
  have spaces : (t.takeWhile (· == Bytes.space)).length ≠ t.length →
      (t ++ tail).takeWhile (· == Bytes.space) = t.takeWhile (· == Bytes.space) := by
    intro more
    rw [List.takeWhile_append, if_neg more]
  have short := (List.takeWhile_prefix (l := t) (· == Bytes.space)).length_le
  obtain ⟨near, opens⟩ | ⟨column, colons⟩ := ends
  · left
    rw [spaces, List.drop_append_of_le_length short]
    · exact ⟨near, openingFence?_append opens other⟩
    · intro all
      rw [all, List.drop_length] at opens
      cases opens
  · right
    have starts := List.isPrefixOf_iff_prefix.mp colons
    have some : t.length ≠ 0 := by
      have := starts.length_le
      have : (utf8 ":::").length = 3 := rfl
      omega
    have none : (t.takeWhile (· == Bytes.space)).length = 0 := by simpa using column
    rw [spaces (by omega)]
    exact ⟨column, List.isPrefixOf_iff_prefix.mpr (starts.trans (List.prefix_append t tail))⟩

theorem breaks_of_concat {t : Bytes} (ends : breaks (Line.dropReturn t) = true) :
    breaks (Line.dropReturn (t ++ [0x5D])) = true := by
  obtain ⟨r, trails, -, whole⟩ := Line.exists_return t
  rw [Line.dropReturn_concat (by decide)]
  nth_rewrite 1 [whole]
  rw [List.append_assoc]
  refine breaks_append ends fun b member => ?_
  obtain member | member := List.mem_append.mp member
  · exact ⟨(trails.plain b member).ne (by decide), (trails.plain b member).ne (by decide)⟩
  · rw [List.mem_singleton.mp member]
    decide

theorem Calm.of_concat {pieces : List Bytes} {last : Bytes} (calm : Calm (pieces ++ [last ++ [0x5D]])) :
    Calm (pieces ++ [last]) := by
  obtain ⟨whole, filled⟩ := calm
  rw [List.dropLast_concat] at filled
  refine ⟨fun piece member => ?_, by rw [List.dropLast_concat]; exact filled⟩
  obtain member | member := List.mem_append.mp member
  · exact whole piece (List.mem_append_left _ member)
  · rw [List.mem_singleton.mp member]
    refine eq_false_of_ne_true fun ends => ?_
    have := whole _ (List.mem_append_right _ List.mem_cons_self)
    rw [breaks_of_concat ends] at this
    cases this

end Block

end Document

/-! ## Moving directives -/

def Extent.move (k : Nat) (e : Extent) : Extent := ⟨e.start + k, e.stop + k⟩

def Directive.move (k : Nat) (d : Directive) : Directive :=
  { d with extent := d.extent.move k, inner := d.inner.move k }

theorem Directive.ofNode_move (front : Bytes) {t : Bytes} (behind : Bytes) {n : Document.Node}
    (le : n.stop ≤ t.length) :
    ofNode (front ++ t ++ behind) (n.move front.length) = (ofNode t n).move front.length := by
  simp only [ofNode, Document.Node.move, Bytes.slice_move front behind n.start le, move, Extent.move,
    Document.Node.extent, Directive.mk.injEq, true_and]
  split
  · rfl
  · split <;> simp only [Nat.add_right_comm _ front.length]

namespace Outline

theorem outermostFrom_move (k : Nat) (reach : Int) (ds : List Directive) :
    outermostFrom (reach + k) (ds.map (Directive.move k)) = (outermostFrom reach ds).map (Directive.move k) := by
  fun_induction outermostFrom reach ds with
  | case1 => rfl
  | case2 reach d ds early ih =>
      rw [List.map_cons, outermostFrom, if_pos, ih]
      exact Int.add_lt_add_right early k
  | case3 reach d ds late ih =>
      rw [List.map_cons, List.map_cons, ← ih, outermostFrom, if_neg]
      · rfl
      · exact fun early => late (Int.lt_of_add_lt_add_right early)

theorem outermost_move (k : Nat) (ds : List Directive) :
    outermost (ds.map (Directive.move k)) = (outermost ds).map (Directive.move k) := by
  -- The first directive is kept on both sides, and it says from where on to look.
  cases ds with
  | nil => rfl
  | cons d ds =>
      have kept : ∀ d ds, outermost (d :: ds) = d :: outermostFrom d.extent.stop ds := by
        intro d ds
        rw [outermost, outermostFrom, if_neg (by omega)]
      rw [List.map_cons, kept, kept, List.map_cons, ← outermostFrom_move]
      rfl

end Outline

namespace Expansions

open Document (Kind Line Node)
open Document.Inline (scan)

/-- The directives that a text holds as one stretch. -/
def held (t : Bytes) : List Directive :=
  ((scan none 0 t).filter fun n => n.kind == .directive).map (Directive.ofNode t)

theorem held_moved (front t behind : Bytes) :
    ((scan none front.length t).filter fun n => n.kind == .directive).map (Directive.ofNode (front ++ t ++ behind)) =
      (held t).map (Directive.move front.length) := by
  have moved := Document.Inline.scan_move front.length none 0 t
  rw [Nat.zero_add] at moved
  rw [moved, List.filter_map, List.map_map, held, List.map_map]
  refine List.map_congr_left fun n member => ?_
  have inside := (Document.Inline.nested_scan none 0 t 0).bounds n (List.mem_of_mem_filter member)
  exact Directive.ofNode_move front behind (by omega)

theorem stop_le_of_mem_held {t : Bytes} {d : Directive} (member : d ∈ held t) :
    d.extent.start < d.extent.stop ∧ d.extent.stop ≤ t.length := by
  obtain ⟨n, node, rfl⟩ := List.mem_map.mp member
  have inside := (Document.Inline.nested_scan none 0 t 0).bounds n (List.mem_of_mem_filter node)
  rw [Nat.zero_add] at inside
  exact inside.2

theorem directives_ofText (t : Bytes) : (Outline.ofText t).directives =
    ((Document.ofText t).nodes.filter fun n => n.kind == .directive).map (Directive.ofNode t) :=
  rfl

/-- In a text that is one paragraph, expansion finds what the paragraph holds. -/
theorem directives_of_quiet {t : Bytes} (quiet : Document.Block.Quiet (t.splitOn Bytes.lf)) :
    directives t = Outline.outermost (held t) := by
  have nodes : (Document.ofText (Bytes.lf :: t)).nodes = scan none 1 t := by
    rw [Document.nodes_lf]
    exact Document.bodyNodes_quiet quiet [Bytes.lf]
  have found : (Outline.ofText (Bytes.lf :: t)).directives = (held t).map (Directive.move 1) := by
    have moved := held_moved [Bytes.lf] t []
    rw [List.append_nil] at moved
    rw [directives_ofText, nodes]
    exact moved
  rw [directives, found, Outline.outermost_move, List.map_map]
  exact List.map_id _

/-- Expansion finds nothing on a first line that begins no paragraph. -/
theorem next_le_of_mem_directives {t : Bytes} {l : Line} {d : Directive}
    (first : (Line.ofText 0 t).find? Document.Block.isFilled = some l)
    (other : Document.Block.beginsParagraph l.content = false) (member : d ∈ directives t) :
    l.next ≤ d.extent.start := by
  obtain ⟨n, node, -, -, -, rfl⟩ := exists_of_mem_directives member
  obtain ⟨node, directive⟩ := List.mem_filter.mp node
  have fill := Line.fill_ofText 1 t
  have first' : (Line.ofText 1 t).find? Document.Block.isFilled = some (l.move 1) := by
    rw [Line.ofText_move 1 0 t, List.find?_map]
    exact congrArg (Option.map (Line.move 1)) first
  rw [Document.nodes_lf, Document.mem_bodyNodes] at node
  have late := Document.Block.next_le_start_run fill first' other node (eq_of_beq directive)
  exact Nat.le_sub_of_add_le late

/-! ## A directive around the text -/

/-- A text between the brackets of a directive. -/
def aside (inner : Bytes) : Bytes := utf8 ":aside[" ++ inner ++ utf8 "]"

theorem length_opening : (utf8 ":aside[").length = 7 := rfl

theorem length_aside (inner : Bytes) : (aside inner).length = inner.length + 8 := by
  have bracket : (utf8 "]").length = 1 := rfl
  simp only [aside, List.length_append, length_opening, bracket]
  omega

/-- Behind the colon, the name is always the same and its bracket is the first. -/
theorem directive?_aside (inner : Bytes) : Document.Inline.directive? ((aside inner).drop 1) =
    (Document.Bracket.square? (0x5B :: (inner ++ [0x5D]))).map fun close =>
      ⟨utf8 "aside", Bytes.slice (0x5B :: (inner ++ [0x5D])) 1 close,
        Document.Inline.attributesLength ((inner ++ [0x5D]).drop close)⟩ := by
  have name : ((aside inner).drop 1).takeWhile Document.Inline.isNameByte = utf8 "aside" := rfl
  have rest : ((aside inner).drop 1).dropWhile Document.Inline.isNameByte = 0x5B :: (inner ++ [0x5D]) := rfl
  unfold Document.Inline.directive?
  simp only [name, rest]
  cases Document.Bracket.square? (0x5B :: (inner ++ [0x5D])) <;> rfl

section

open Document.Block (Quiet Calm beginsParagraph)
open Document.Inline (DirectiveParts attributesLength directive? directiveAt? nested_scan scan_colon scan_directive)

variable {inner : Bytes}

/-- A directive over the whole text has no attributes, because the text ends with a bracket. -/
theorem square?_of_length {d : DirectiveParts} (found : directive? ((aside inner).drop 1) = some d)
    (length : d.length = (aside inner).length) :
    Document.Bracket.square? (0x5B :: (inner ++ [0x5D])) = some (inner.length + 1) := by
  rw [directive?_aside, Option.map_eq_some_iff] at found
  obtain ⟨close, closed, rfl⟩ := found
  have bounds := Document.Bracket.square?_bounds rfl closed
  simp only [List.length_cons, List.length_append, List.length_nil] at bounds
  have sliced : (Bytes.slice (0x5B :: (inner ++ [0x5D])) 1 close).length = close - 1 :=
    Bytes.length_slice 1 (by simp; omega)
  have total : close + attributesLength ((inner ++ [0x5D]).drop close) = inner.length + 1 := by
    rw [length_aside] at length
    simp only [DirectiveParts.length, sliced] at length
    have name : (utf8 "aside").length = 5 := rfl
    omega
  have none : attributesLength ((inner ++ [0x5D]).drop close) = 0 := by
    unfold attributesLength at total ⊢
    split at total
    · rw [if_pos ‹_›]
      cases brace : Document.Bracket.brace? ((inner ++ [0x5D]).drop close) with
      | none => rfl
      | some stop =>
          -- The closing brace would be the last byte of the text.
          rw [brace] at total
          have closing := Document.Bracket.closing?_getElem brace
          have stops : close + stop = inner.length := Nat.succ.inj total
          rw [List.getElem?_drop, stops, List.getElem?_concat_length] at closing
          cases closing
    · rw [if_neg ‹_›]
  rw [closed]
  congr 1
  omega

theorem square?_of_mem_scan {n : Node} (member : n ∈ scan none 0 (aside inner)) (first : n.start = 0)
    (last : n.stop = (aside inner).length) :
    Document.Bracket.square? (0x5B :: (inner ++ [0x5D])) = some (inner.length + 1) := by
  change n ∈ scan none 0 (0x3A :: (aside inner).drop 1) at member
  cases found : directiveAt? none ((aside inner).drop 1) with
  | none =>
      rw [scan_colon found] at member
      have late := ((nested_scan _ _ _ 0).bounds n member).1
      omega
  | some d =>
      refine square?_of_length found ?_
      rw [scan_directive found] at member
      obtain rfl | member := List.mem_cons.mp member
      · simpa using last
      · -- Every other node starts behind the colon.
        have pos := Document.Inline.length_pos d
        obtain member | member := List.mem_append.mp member
        · have late := ((nested_scan _ _ _ 0).bounds n member).1
          omega
        · have late := ((nested_scan _ _ _ 0).bounds n member).1
          omega

/-- The document shows the text as one directive: its last bracket closes its first one, and no line of it ends the
paragraph. -/
structure Spans (inner : Bytes) : Prop where
  closed : Document.Bracket.square? (0x5B :: (inner ++ [0x5D])) = some (inner.length + 1)
  quiet : Quiet ((aside inner).splitOn Bytes.lf)
  calm : Calm (inner.splitOn Bytes.lf).tail

theorem nodes_aside (inner : Bytes) : (Document.ofText (aside inner)).nodes = Document.bodyNodes (aside inner) 0 := by
  have header : Document.Header.ofText? (aside inner) = none :=
    Document.Header.ofText?_eq_none (show some (0x3A : UInt8) ≠ some 0x2D by decide)
  rw [Document.ofText, header]
  rfl

theorem spans_of_mem {n : Node} (member : n ∈ (Document.ofText (aside inner)).nodes) (directive : n.kind = .directive)
    (first : n.start = 0) (last : n.stop = (aside inner).length) : Spans inner := by
  obtain ⟨pieces, ending, split, splitBehind⟩ := Bytes.splitOn_concat (by decide : (0x5D : UInt8) ≠ Bytes.lf) inner
  obtain ⟨piece, rest, split', splitAside⟩ :=
    Bytes.splitOn_append (by decide : Bytes.lf ∉ utf8 ":aside[") (inner ++ [0x5D])
  rw [← List.append_assoc] at splitAside
  have begins : beginsParagraph (Line.dropReturn (utf8 ":aside[" ++ piece)) = true := by
    change beginsParagraph (Line.dropReturn (0x3A :: 0x61 :: _)) = true
    rw [Line.dropReturn_cons (by decide), Line.dropReturn_cons (by decide)]
    exact Document.Block.beginsParagraph_cons (Bytes.isBlank_cons (by decide) (by decide) _) (by decide) (by decide)
      (by decide) (by rfl)
  rw [nodes_aside] at member
  have calm := Document.calm_of_whole splitAside begins member directive first last
  have quiet : Quiet ((aside inner).splitOn Bytes.lf) := splitAside ▸ .cons begins calm
  have stretch : Document.bodyNodes (aside inner) 0 = scan none 0 (aside inner) := Document.bodyNodes_quiet quiet []
  rw [stretch] at member
  refine ⟨square?_of_mem_scan member first last, quiet, ?_⟩
  rw [split]
  cases pieces with
  | nil => exact ⟨nofun, nofun⟩
  | cons first pieces =>
      rw [splitBehind] at split'
      cases split'
      exact calm.of_concat

/-- The document shows one directive over the whole text. -/
def ShowsWhole (inner : Bytes) : Prop :=
  ∃ d ∈ (Outline.ofText (aside inner)).directives, d.extent = ⟨0, (aside inner).length⟩

/-- The outermost directives that the document shows between the brackets. -/
def shownInside (inner : Bytes) : List Directive :=
  Outline.outermost ((Outline.ofText (aside inner)).directives.filter fun d =>
    7 ≤ d.extent.start && d.extent.stop ≤ 7 + inner.length)

theorem spans_of_showsWhole (whole : ShowsWhole inner) : Spans inner := by
  obtain ⟨d, member, extent⟩ := whole
  obtain ⟨n, node, rfl⟩ := List.mem_map.mp member
  obtain ⟨node, directive⟩ := List.mem_filter.mp node
  exact spans_of_mem node (eq_of_beq directive) (congrArg Extent.start extent) (congrArg Extent.stop extent)

/-- The directive around the contents. -/
def around (inner : Bytes) : Directive :=
  ⟨utf8 "aside", ⟨0, (aside inner).length⟩, ⟨7, 7 + inner.length⟩⟩

namespace Spans

variable (spans : Spans inner)
include spans

theorem scan_eq :
    scan none 0 (aside inner) = ⟨.directive, utf8 "aside", 0, (aside inner).length, 0⟩ :: scan none 7 inner := by
  have parts : directiveAt? none ((aside inner).drop 1) = some ⟨utf8 "aside", inner, 0⟩ := by
    have found := directive?_aside inner
    rw [spans.closed] at found
    refine found.trans ?_
    simp [Bytes.slice, attributesLength]
  have length : (DirectiveParts.mk (utf8 "aside") inner 0).length = (aside inner).length := by
    have name : (utf8 "aside").length = 5 := rfl
    simp only [length_aside, DirectiveParts.length, name]
    omega
  have behind : ((aside inner).drop 1).drop ((aside inner).length - 1) = [] := by
    rw [List.drop_drop]
    exact List.drop_of_length_le (by omega)
  change scan none 0 (0x3A :: (aside inner).drop 1) = _
  rw [scan_directive parts, length, Nat.zero_add, behind, Document.Inline.scan_nil, List.append_nil]
  rfl

theorem ofNode_eq :
    Directive.ofNode (aside inner) ⟨.directive, utf8 "aside", 0, (aside inner).length, 0⟩ = around inner := by
  have raw : (aside inner).slice 0 (aside inner).length = aside inner := by simp [Bytes.slice]
  have opening : (aside inner).indexOf? 0x5B = some 6 := rfl
  have closed : Document.Bracket.square? ((aside inner).drop 6) = some (inner.length + 1) := spans.closed
  simp only [Directive.ofNode, raw, opening, closed, around, Directive.mk.injEq, Extent.mk.injEq]
  exact ⟨rfl, rfl, trivial, by omega⟩

/-- The text holds the directive around the contents, and then what the contents hold. -/
theorem held_eq : held (aside inner) = around inner :: (held inner).map (Directive.move 7) := by
  have moved := held_moved (utf8 ":aside[") inner (utf8 "]")
  rw [length_opening] at moved
  rw [held, spans.scan_eq, List.filter_cons_of_pos (by rfl), List.map_cons, spans.ofNode_eq, ← moved]
  rfl

theorem shown_eq : (Outline.ofText (aside inner)).directives = held (aside inner) := by
  have stretch : Document.bodyNodes (aside inner) 0 = scan none 0 (aside inner) :=
    Document.bodyNodes_quiet spans.quiet []
  rw [directives_ofText, nodes_aside, stretch, held]

theorem shownInside_eq : shownInside inner = (Outline.outermost (held inner)).map (Directive.move 7) := by
  rw [shownInside, spans.shown_eq, spans.held_eq, List.filter_cons_of_neg (by simp [around]), List.filter_eq_self.mpr,
    Outline.outermost_move]
  intro d member
  obtain ⟨d, kept, rfl⟩ := List.mem_map.mp member
  have inside := stop_le_of_mem_held kept
  refine Bool.and_eq_true_iff.mpr ⟨decide_eq_true ?_, decide_eq_true ?_⟩
  · exact Nat.le_add_left 7 _
  · simp only [Directive.move, Extent.move]
    omega

theorem directives_eq : directives (aside inner) = [around inner] := by
  have covered : ∀ d ∈ (held inner).map (Directive.move 7),
      d.extent.start ≤ d.extent.stop ∧ d.extent.start < (aside inner).length := by
    intro d member
    obtain ⟨d, kept, rfl⟩ := List.mem_map.mp member
    have inside := stop_le_of_mem_held kept
    rw [length_aside]
    simp only [Directive.move, Extent.move]
    omega
  have behind : Outline.outermostFrom (aside inner).length ((held inner).map (Directive.move 7)) = [] := by
    refine List.eq_nil_iff_forall_not_mem.mpr fun d member => ?_
    have late := Outline.le_start_outermostFrom (fun d among => (covered d among).1) d member
    have early := (covered d ((Outline.sublist_outermostFrom _ _).subset member)).2
    omega
  rw [directives_of_quiet spans.quiet, spans.held_eq, Outline.outermost, Outline.outermostFrom,
    if_neg (by simp [around])]
  exact congrArg (around inner :: ·) behind

/-- The expansion of the text is that of the contents between the same brackets. -/
theorem expandText_eq {x : Expansions} (plain : x.invoked? (utf8 "aside") inner = none) :
    x.expandText (aside inner) = (x.expandText inner).map aside := by
  have contents : (around inner).inner.of (aside inner) = inner := by
    have moved := Bytes.slice_move (utf8 ":aside[") (utf8 "]") 0 (Nat.le_refl inner.length)
    rw [length_opening, Nat.zero_add, Nat.add_comm] at moved
    refine moved.trans ?_
    simp [Bytes.slice]
  have refill : refilled (aside inner) (around inner) = aside := by
    have behind : (aside inner).drop (7 + inner.length) = utf8 "]" := by
      rw [← length_opening, ← List.length_append]
      exact List.drop_left
    have bracket : (aside inner).slice (7 + inner.length) (aside inner).length = utf8 "]" := by
      rw [Bytes.slice, behind, length_aside]
      exact List.take_of_length_le (by rw [show (utf8 "]").length = 1 from rfl]; omega)
    funext out
    rw [refilled, around, bracket]
    rfl
  have key : (around inner).key ≠ Builtin.macroKey := (by decide : utf8 "aside" ≠ Builtin.macroKey)
  rw [expandText_of_alone spans.directives_eq rfl, piece, contents, if_neg, if_neg key, refill]
  rw [around, plain]
  decide

end Spans

/-- Where the document shows a directive over the whole text, it shows between the brackets what expansion finds in the
contents, provided that their first line with something on it begins a paragraph. Otherwise expansion finds nothing up
to the end of that line. Either way the text expands to the expansion of the contents between the same brackets. -/
theorem expansion_sees_nested_directives (inner : Bytes) (whole : ShowsWhole inner) :
    let first := (Line.ofText 0 inner).find? Document.Block.isFilled
    ((∀ l ∈ first, beginsParagraph l.content = true) → shownInside inner = (directives inner).map (Directive.move 7)) ∧
    (∀ l ∈ first, beginsParagraph l.content = false → ∀ d ∈ directives inner, l.next ≤ d.extent.start) ∧
    (∀ x : Expansions, x.invoked? (utf8 "aside") inner = none →
      x.expandText (aside inner) = (x.expandText inner).map aside) := by
  intro first
  have spans := spans_of_showsWhole whole
  refine ⟨fun begins => ?_, fun l here other d found => next_le_of_mem_directives here other found,
    fun x plain => spans.expandText_eq plain⟩
  rw [directives_of_quiet (Document.Block.quiet_of_first spans.calm begins)]
  exact spans.shownInside_eq

/-- The directives of a text without a header whose nodes are found in order. -/
theorem directives_of_run {t : Bytes} {ns : List Document.Node} (headless : Document.Header.ofText? t = none)
    (found : Document.Block.run t .start (Line.ofText 0 t) = ns)
    (sorted : ns.Pairwise fun a b => decide (a.start ≤ b.start) = true) :
    (Outline.ofText t).directives = (ns.filter fun n => n.kind == .directive).map (Directive.ofNode t) := by
  have body : Document.bodyOf (Document.Header.ofText? t) = 0 := by rw [headless]; rfl
  have nodes : (Document.ofText t).nodes = ns := by
    rw [Document.ofText, body, Document.bodyNodes, List.drop_zero, found, List.mergeSort_of_pairwise sorted]
  rw [← nodes]
  rfl

theorem expansion_sees_nested_directives_second_line :
    ShowsWhole (utf8 "\n  :x[]") ∧ directives (utf8 "\n  :x[]") = [⟨utf8 "x", ⟨3, 7⟩, ⟨6, 6⟩⟩] ∧
      shownInside (utf8 "\n  :x[]") = (directives (utf8 "\n  :x[]")).map (Directive.move 7) := by
  have shown : (Outline.ofText (aside (utf8 "\n  :x[]"))).directives =
      [⟨utf8 "aside", ⟨0, 15⟩, ⟨7, 14⟩⟩, ⟨utf8 "x", ⟨10, 14⟩, ⟨13, 13⟩⟩] := by
    rw [directives_of_run (by decide) rfl (by decide +kernel)]
    decide +kernel
  have whole : ShowsWhole (utf8 "\n  :x[]") := ⟨_, shown ▸ List.mem_cons_self, rfl⟩
  exact ⟨whole, by decide +kernel, (expansion_sees_nested_directives _ whole).1 (by decide +kernel)⟩

/-- Contents that are indented by four columns are code to expansion, so a directive that the document shows in them is
left as it is, whatever it invokes. -/
theorem indented_contents_missed :
    ShowsWhole (utf8 "    :x[]") ∧ shownInside (utf8 "    :x[]") = [⟨utf8 "x", ⟨11, 15⟩, ⟨14, 14⟩⟩] ∧
      directives (utf8 "    :x[]") = [] ∧
      ∀ x : Expansions, x.invoked? (utf8 "aside") (utf8 "    :x[]") = none →
        x.expandText (aside (utf8 "    :x[]")) = .ok (aside (utf8 "    :x[]")) := by
  have shown : (Outline.ofText (aside (utf8 "    :x[]"))).directives =
      [⟨utf8 "aside", ⟨0, 16⟩, ⟨7, 15⟩⟩, ⟨utf8 "x", ⟨11, 15⟩, ⟨14, 14⟩⟩] := by
    rw [directives_of_run (by decide) rfl (by decide +kernel)]
    decide +kernel
  have whole : ShowsWhole (utf8 "    :x[]") := ⟨_, shown ▸ List.mem_cons_self, rfl⟩
  have none : directives (utf8 "    :x[]") = [] := by decide +kernel
  refine ⟨whole, ?_, none, fun x plain => ?_⟩
  · rw [shownInside, shown]
    rfl
  · rw [(spans_of_showsWhole whole).expandText_eq plain, expandText, expand_eq, none]
    rfl

end

end Expansions

end Colloquy
