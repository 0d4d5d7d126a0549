import Colloquy.Proofs.Document.Block
import Colloquy.Proofs.Document.Stretch
import Colloquy.Proofs.Text.Space

/-! # Texts that are one paragraph

In a paragraph only three things matter about the next line: whether it is blank, opens a fence or starts with a row of
colons. Every other line continues the paragraph, however it is indented. Outside a paragraph a line has to begin one,
which indented code and literal blocks do not. So a text is scanned as one stretch when its first line with something
on it begins a paragraph and no other line ends it, and nothing is found in a first line that begins none.
-/

namespace Colloquy.Document

open Inline (scan Trails IsPlain)

/-- The kinds of nodes that are found in paragraphs. -/
def Kind.IsInline (k : Kind) : Prop := k = .directive ∨ k = .link

instance (k : Kind) : Decidable k.IsInline := inferInstanceAs (Decidable (_ ∨ _))

namespace Line

theorem dropReturn_cons {b : UInt8} (other : b ≠ Bytes.cr) (t : Bytes) : dropReturn (b :: t) = b :: dropReturn t := by
  cases t with
  | nil => simp [dropReturn, other]
  | cons c t =>
      simp only [dropReturn, List.getLast?_cons_cons, List.dropLast_cons_cons]
      split <;> rfl

theorem dropReturn_concat {b : UInt8} (other : b ≠ Bytes.cr) (t : Bytes) : dropReturn (t ++ [b]) = t ++ [b] := by
  rw [dropReturn, List.getLast?_concat, if_neg (by simpa using other)]

end Line

namespace Block

/-! ## What a line does to a paragraph -/

/-- Whether a line starts a fence or a container, which ends a paragraph like a blank line does. -/
def breaks (line : Bytes) : Bool :=
  let spaces := (line.takeWhile (· == Bytes.space)).length
  (spaces ≤ 3 && (openingFence? (line.drop spaces)).isSome) || (spaces == 0 && Bytes.startsWith line (utf8 ":::"))

/-- Whether a line outside every leaf block begins a paragraph. -/
def beginsParagraph (line : Bytes) : Bool :=
  !Bytes.isBlank line && !breaks line && Line.indent line < 4 && (openingTag? line).isNone

section

variable {text : Bytes} {st : State} {stack : List Opening} {l : Line} {ls : List Line} {n : Node} {start stop : Nat}

theorem breaks_eq_false_iff {line : Bytes} : breaks line = false ↔
    (if (line.takeWhile (· == Bytes.space)).length ≤ 3 then
      openingFence? (line.drop (line.takeWhile (· == Bytes.space)).length) else none) = none ∧
    ((line.takeWhile (· == Bytes.space)).length == 0 && Bytes.startsWith line (utf8 ":::")) = false := by
  rw [breaks, Bool.or_eq_false_iff]
  split
  · rename_i near
    simp [near]
  · rename_i far
    simp [far]

/-- A line begins a paragraph unless its first bytes have another meaning. -/
theorem beginsParagraph_cons {b : UInt8} {t : Bytes} (filled : Bytes.isBlank (b :: t) = false)
    (indent : b ≠ Bytes.space ∧ b ≠ Bytes.tab) (fence : b ≠ 0x60 ∧ b ≠ 0x7E) (tag : b ≠ 0x3C)
    (colons : Bytes.startsWith (b :: t) (utf8 ":::") = false) : beginsParagraph (b :: t) = true := by
  have spaces : ((b :: t).takeWhile (· == Bytes.space)).length = 0 := by simp [indent]
  have noFence : openingFence? (b :: t) = none := by simp [openingFence?, fence]
  have column : Line.indent (b :: t) = 0 := by simp [Line.indent, Line.indentFrom, indent]
  have noTag : openingTag? (b :: t) = none := by
    unfold openingTag?
    split
    · rename_i known
      exact absurd (List.cons.inj known).1 tag
    · rfl
  simp [beginsParagraph, breaks, filled, spaces, noFence, colons, column, noTag]

theorem run_idle_blank (blank : l.content.isBlank = true) :
    run text ⟨.idle, stack⟩ (l :: ls) = run text ⟨.idle, stack⟩ ls := by
  simp only [run, step, openLine, blank, if_true, flush, List.nil_append]

theorem run_paragraph_blank (blank : l.content.isBlank = true) :
    run text ⟨.paragraph start stop, stack⟩ (l :: ls) =
      flush text (.paragraph start stop) ++ run text ⟨.idle, stack⟩ ls := by
  simp only [run, step, openLine, blank, if_true]

theorem run_continues (filled : l.content.isBlank = false) (whole : breaks l.content = false) :
    run text ⟨.paragraph start stop, stack⟩ (l :: ls) = run text ⟨.paragraph start l.stop, stack⟩ ls := by
  obtain ⟨fence, colons⟩ := breaks_eq_false_iff.mp whole
  simp [run, step, openLine, filled, fence, colons]

theorem run_begins (begins : beginsParagraph l.content = true) :
    run text ⟨.idle, stack⟩ (l :: ls) = run text ⟨.paragraph l.start l.stop, stack⟩ ls := by
  simp only [beginsParagraph, Bool.and_eq_true, Bool.not_eq_true', decide_eq_true_eq,
    Option.isNone_iff_eq_none] at begins
  obtain ⟨⟨⟨filled, whole⟩, indent⟩, tag⟩ := begins
  obtain ⟨fence, colons⟩ := breaks_eq_false_iff.mp whole
  simp [run, step, openLine, filled, fence, colons, tag, Nat.not_le.mpr indent]

theorem openingTag?_eq_none {line : Bytes} (spaces : (line.takeWhile (· == Bytes.space)).length ≠ 0) :
    openingTag? line = none := by
  unfold openingTag?
  split
  · exact absurd rfl spaces
  · rfl

/-- How a paragraph from `start` on can be open behind a line: the line does not end it, and it was open before or the
line begins it. -/
structure LeavesOpen (mode : Mode) (l : Line) (start : Nat) : Prop where
  filled : l.content.isBlank = false
  whole : breaks l.content = false
  origin : (∃ stop, mode = .paragraph start stop) ∨ start = l.start ∧ beginsParagraph l.content = true

theorem leavesOpen_openLine (opened : (openLine text st l).1.mode = .paragraph start stop) :
    LeavesOpen st.mode l start := by
  revert opened
  fun_cases openLine text st l with
  | case1 | case2 | case3 | case4 | case5 | case6 =>
      intro opened
      cases opened
  | case7 mode spaces inParagraph filled _ noFence noColons _ start' stop' known =>
      intro opened
      cases opened
      have whole := breaks_eq_false_iff.mpr ⟨noFence, eq_false_of_ne_true noColons⟩
      exact ⟨eq_false_of_ne_true filled, whole, .inl ⟨stop', known⟩⟩
  | case8 mode spaces inParagraph filled indent noFence noColons noTag other =>
      intro opened
      cases opened
      have whole := breaks_eq_false_iff.mpr ⟨noFence, eq_false_of_ne_true noColons⟩
      have outside : inParagraph = false := by
        cases known : mode with
        | paragraph start stop => exact (other start stop known).elim
        | idle | indented | fenced | html => simp only [inParagraph, known]
      have tag : openingTag? l.content = none := by
        by_cases column : spaces = 0
        · simpa [column, outside] using noTag
        · exact openingTag?_eq_none column
      refine ⟨eq_false_of_ne_true filled, whole, .inr ⟨rfl, ?_⟩⟩
      simpa [beginsParagraph, filled, whole, tag, outside] using indent

theorem leavesOpen_step (opened : (step text st l).1.mode = .paragraph start stop) : LeavesOpen st.mode l start := by
  revert opened
  fun_cases step text st l with
  | case1 | case3 | case4 | case7 =>
      intro opened
      cases opened
  | case2 _ _ _ known | case5 _ _ known | case6 _ _ known =>
      intro opened
      rw [known] at opened
      cases opened
  | case8 _ _ _ _ _ st' out moved =>
      intro opened
      obtain ⟨filled, whole, ⟨_, known⟩ | begun⟩ := leavesOpen_openLine (by rw [moved]; exact opened)
      · cases known
      · exact ⟨filled, whole, .inr begun⟩
  | case9 => exact leavesOpen_openLine

/-! ## Which inline constructs a line completes -/

theorem kind_of_container (member : n ∈ (container stack l).2) : n.kind = .container := by
  unfold container at member
  simp only at member
  split at member
  · cases stack with
    | nil => cases member
    | cons top stack =>
        simp only at member
        split at member
        · cases member
        · rw [List.mem_singleton.mp member]
  · cases member

/-- The only inline constructs that a line completes are those of the paragraph that it ends. -/
theorem inline_openLine (member : n ∈ (openLine text st l).2) (inline : n.kind.IsInline) : n ∈ flush text st.mode := by
  revert member
  fun_cases openLine text st l with
  | case1 | case3 => exact id
  | case2 | case6 | case7 | case8 =>
      intro member
      cases member
  | case4 mode spaces inParagraph _ _ _ _ stack out closed =>
      intro member
      obtain member | member := List.mem_append.mp member
      · exact member
      · have kind := kind_of_container (n := n) (by rw [closed]; exact member)
        exact absurd (kind ▸ inline) (by decide)
  | case5 =>
      intro member
      rw [List.mem_singleton.mp member] at inline
      simp [Kind.IsInline] at inline

theorem inline_step (member : n ∈ (step text st l).2) (inline : n.kind.IsInline) : n ∈ flush text st.mode := by
  revert member
  fun_cases step text st l with
  | case2 | case5 | case6 | case7 =>
      intro member
      cases member
  | case1 | case3 | case4 =>
      intro member
      rw [List.mem_singleton.mp member] at inline
      simp [Kind.IsInline] at inline
  | case8 _ _ _ _ _ st' out moved =>
      intro member
      obtain rfl | member := List.mem_cons.mp member
      · simp [Kind.IsInline] at inline
      · cases inline_openLine (by rw [moved]; exact member) inline
  | case9 => exact fun member => inline_openLine member inline

theorem kind_of_closeAll (member : n ∈ closeAll stop stack) : n.kind = .container := by
  induction stack with
  | nil => cases member
  | cons top stack ih =>
      obtain rfl | member := List.mem_cons.mp member
      · rfl
      · exact ih member

theorem inline_finish (member : n ∈ finish text st) (inline : n.kind.IsInline) : n ∈ flush text st.mode := by
  obtain member | member := List.mem_append.mp member
  · split at member
    · rw [List.mem_singleton.mp member] at inline
      simp [Kind.IsInline] at inline
    · rw [List.mem_singleton.mp member] at inline
      simp [Kind.IsInline] at inline
    · rw [List.mem_singleton.mp member] at inline
      simp [Kind.IsInline] at inline
    · exact member
  · exact absurd (kind_of_closeAll member ▸ inline) (by decide)

theorem start_le_of_flush (member : n ∈ flush text (.paragraph start stop)) : start ≤ n.start :=
  ((Inline.nested_scan none start (text.slice start stop) 0).bounds n member).1

theorem stop_le_of_flush (member : n ∈ flush text (.paragraph start stop)) (le : start ≤ stop) : n.stop ≤ stop := by
  have behind : (Mode.paragraph start stop).Behind start stop := ⟨Nat.le_refl _, le, Nat.le_refl _⟩
  exact ((behind.nested_flush text 0).bounds n member).2.2

theorem mem_run_cons :
    n ∈ run text st (l :: ls) ↔ n ∈ (step text st l).2 ∨ n ∈ run text (step text st l).1 ls :=
  List.mem_append

/-- No directive of a run starts before the paragraph that is open and before all lines. -/
theorem le_start_run {lo : Nat} (first : ∀ start stop, st.mode = .paragraph start stop → lo ≤ start)
    (lines : ∀ l ∈ ls, lo ≤ l.start) (member : n ∈ run text st ls) (directive : n.kind = .directive) :
    lo ≤ n.start := by
  have flushed : ∀ {st : State}, (∀ start stop, st.mode = .paragraph start stop → lo ≤ start) →
      n ∈ flush text st.mode → lo ≤ n.start := by
    intro st first member
    cases known : st.mode with
    | paragraph start stop =>
        rw [known] at member
        exact Nat.le_trans (first start stop known) (start_le_of_flush member)
    | idle | indented | fenced | html =>
        rw [known] at member
        cases member
  induction ls generalizing st with
  | nil => exact flushed first (inline_finish member (.inl directive))
  | cons l ls ih =>
      obtain ⟨here, behind⟩ := List.forall_mem_cons.mp lines
      obtain member | member := mem_run_cons.mp member
      · exact flushed first (inline_step member (.inl directive))
      · refine ih (fun start stop opened => ?_) behind member
        obtain ⟨stop', known⟩ | ⟨rfl, -⟩ := (leavesOpen_step opened).origin
        · exact first start stop' known
        · exact here

/-- A line that ends the open paragraph completes its directives: those behind the line start behind it. -/
theorem mem_flush_of_mem_run (ends : l.content.isBlank = true ∨ breaks l.content = true)
    (lines : ∀ l' ∈ ls, l.start < l'.start) (member : n ∈ run text st (l :: ls)) (directive : n.kind = .directive)
    (before : n.start ≤ l.start) : n ∈ flush text st.mode := by
  obtain member | member := mem_run_cons.mp member
  · exact inline_step member (.inl directive)
  · have late := le_start_run (fun start stop opened => ?_) lines member directive
    · exact absurd before (Nat.not_le.mpr late)
    · obtain ⟨filled, whole, -⟩ := leavesOpen_step opened
      rw [filled, whole] at ends
      simp at ends

end

end Block

/-! ## Lines that continue a paragraph -/

namespace Line

theorem exists_return (t : Bytes) : ∃ r, Trails r ∧ Trails (r ++ [Bytes.lf]) ∧ t = dropReturn t ++ r := by
  have returns : Trails [Bytes.cr] ∧ Trails [Bytes.cr, Bytes.lf] := by
    constructor <;> constructor <;> simp [IsPlain, Bytes.cr, Bytes.lf]
  have lf : Trails [Bytes.lf] := by constructor <;> simp [IsPlain, Bytes.lf]
  have nothing : Trails [] := by constructor <;> simp
  unfold dropReturn
  split
  · rename_i last
    obtain ⟨content, rfl⟩ := List.getLast?_eq_some_iff.mp (eq_of_beq last)
    exact ⟨[Bytes.cr], returns.1, returns.2, by rw [List.dropLast_concat]⟩
  · exact ⟨[], nothing, lf, (List.append_nil t).symm⟩

/-- Some pieces are one piece without a byte, or the first is a line, its content and then its ending, and the others
lie behind it. -/
theorem layOut_cases (start : Nat) (piece : Bytes) (pieces : List Bytes) :
    (piece = [] ∧ pieces = []) ∨
    ∃ ending, Trails ending ∧ (pieces ≠ [] → ending.getLast? = some Bytes.lf) ∧
      Bytes.join [Bytes.lf] (piece :: pieces) = dropReturn piece ++ ending ++ Bytes.join [Bytes.lf] pieces ∧
      layOut start (piece :: pieces) = ⟨start, dropReturn piece, start + (dropReturn piece ++ ending).length⟩ ::
        layOut (start + (dropReturn piece ++ ending).length) pieces := by
  obtain ⟨r, last, inner, whole⟩ := exists_return piece
  cases pieces with
  | nil =>
      by_cases empty : piece = []
      · exact .inl ⟨empty, rfl⟩
      · have some : piece.isEmpty = false := by simpa using empty
        refine .inr ⟨r, last, nofun, ?_, ?_⟩
        · rw [← whole, Bytes.join, Bytes.join, List.append_nil]
        · rw [← whole, layOut.eq_2, some, layOut]
          rfl
  | cons next pieces =>
      refine .inr ⟨r ++ [Bytes.lf], inner, fun _ => List.getLast?_concat, ?_, ?_⟩
      · rw [← List.append_assoc, ← whole, Bytes.join]
        simp
      · rw [← List.append_assoc, ← whole, List.length_append, layOut]
        · rfl
        · simp

/-- The bytes of a text stand on its lines, or end them. -/
theorem isPlain_or_mem (start : Nat) (pieces : List Bytes) :
    ∀ b ∈ Bytes.join [Bytes.lf] pieces, IsPlain b ∨ ∃ l ∈ layOut start pieces, b ∈ l.content := by
  induction pieces generalizing start with
  | nil => nofun
  | cons piece pieces ih =>
      obtain ⟨rfl, rfl⟩ | ⟨ending, ends, -, joined, laid⟩ := layOut_cases start piece pieces
      · nofun
      intro b member
      rw [joined, List.mem_append, List.mem_append] at member
      rw [laid]
      obtain (content | ending) | behind := member
      · exact .inr ⟨_, List.mem_cons_self, content⟩
      · exact .inl (ends.plain b ending)
      · exact (ih _ b behind).imp_right fun ⟨l, among, here⟩ => ⟨l, List.mem_cons_of_mem _ among, here⟩

end Line

/-- A header starts with a hyphen. -/
theorem Header.ofText?_eq_none {t : Bytes} (first : t.head? ≠ some 0x2D) : ofText? t = none := by
  obtain ⟨piece, pieces, split⟩ := List.exists_cons_of_ne_nil (Bytes.splitOn_ne_nil t Bytes.lf)
  have joined := Bytes.join_splitOn t Bytes.lf
  rw [ofText?, Line.ofText]
  rw [split] at joined ⊢
  obtain ⟨rfl, rfl⟩ | ⟨ending, -, -, whole, laid⟩ := Line.layOut_cases 0 piece pieces
  · rfl
  rw [laid]
  have other : bare ⟨0, Line.dropReturn piece, 0 + (Line.dropReturn piece ++ ending).length⟩ ≠ utf8 "---" := by
    intro hyphens
    have front := Bytes.trimEndWhile_prefix (Line.dropReturn piece) Bytes.isBlankByte
    obtain ⟨rest, same⟩ : utf8 "---" <+: t := by
      rw [← hyphens, ← joined, whole, List.append_assoc]
      exact front.trans (List.prefix_append _ _)
    rw [← same] at first
    exact first rfl
  simp only [beq_eq_false_iff_ne.mpr other]
  rfl

namespace Block

/-- No piece between two line feeds ends a paragraph that is open in front, but the last one may be blank. -/
structure Calm (pieces : List Bytes) : Prop where
  whole : ∀ piece ∈ pieces, breaks (Line.dropReturn piece) = false
  filled : ∀ piece ∈ pieces.dropLast, (Line.dropReturn piece).isBlank = false

theorem Calm.tail {piece : Bytes} {pieces : List Bytes} (calm : Calm (piece :: pieces)) : Calm pieces := by
  refine ⟨fun p member => calm.whole p (List.mem_cons_of_mem _ member), fun p member => calm.filled p ?_⟩
  cases pieces with
  | nil => cases member
  | cons next pieces => exact List.mem_cons_of_mem _ member

theorem Calm.cons {piece : Bytes} {pieces : List Bytes} (filled : (Line.dropReturn piece).isBlank = false)
    (whole : breaks (Line.dropReturn piece) = false) (calm : Calm pieces) : Calm (piece :: pieces) := by
  refine ⟨List.forall_mem_cons.mpr ⟨whole, calm.whole⟩, ?_⟩
  cases pieces with
  | nil => nofun
  | cons next pieces => exact List.forall_mem_cons.mpr ⟨filled, calm.filled⟩

theorem Calm.eq_nil_of_blank {piece : Bytes} {pieces : List Bytes} (calm : Calm (piece :: pieces))
    (blank : (Line.dropReturn piece).isBlank = true) : pieces = [] := by
  cases pieces with
  | nil => rfl
  | cons next pieces => rw [calm.filled piece List.mem_cons_self] at blank; cases blank

/-- The paragraph that ends now is scanned with what trails it. -/
theorem flush_paragraph (front para : Bytes) {gap : Bytes} (trails : Trails gap) :
    flush (front ++ para ++ gap) (.paragraph front.length (front ++ para).length) =
      scan none front.length (para ++ gap) := by
  have slice : (front ++ para ++ gap).slice front.length (front ++ para).length = para := by
    rw [Bytes.slice, List.append_assoc, List.drop_left, List.length_append, Nat.add_sub_cancel_left, List.take_left]
  rw [trails.scan_append]
  exact congrArg (scan none front.length) slice

/-- An open paragraph goes on to the end of calm lines. -/
theorem run_calm {pieces : List Bytes} (calm : Calm pieces) (front para gap : Bytes) (trails : Trails gap)
    (apart : pieces ≠ [] → gap ≠ []) :
    run (front ++ para ++ gap ++ Bytes.join [Bytes.lf] pieces) ⟨.paragraph front.length (front ++ para).length, []⟩
      (Line.layOut (front ++ para ++ gap).length pieces) =
        scan none front.length (para ++ gap ++ Bytes.join [Bytes.lf] pieces) := by
  induction pieces generalizing para gap with
  | nil =>
      rw [Bytes.join, List.append_nil, List.append_nil, Line.layOut, run, finish]
      simp only [closeAll, List.append_nil]
      exact flush_paragraph front para trails
  | cons piece pieces ih =>
      obtain ⟨rfl, rfl⟩ | ⟨ending, ends, terminated, joined, laid⟩ :=
        Line.layOut_cases (front ++ para ++ gap).length piece pieces
      · exact ih calm.tail para gap trails fun some => absurd rfl some
      rw [joined, laid]
      generalize contentOf : Line.dropReturn piece = content at *
      cases blank : content.isBlank with
      | true =>
          -- The last line is blank and ends the paragraph.
          obtain rfl := calm.eq_nil_of_blank (by rw [contentOf]; exact blank)
          have tail : Trails (gap ++ (content ++ ending)) := by
            refine trails.append (apart (List.cons_ne_nil _ _)) fun b member => ?_
            exact (List.mem_append.mp member).elim (Inline.isPlain_of_isBlank blank b) (ends.plain b)
          have flushed := flush_paragraph front para tail
          rw [run_paragraph_blank blank, Line.layOut, Bytes.join]
          simp only [run, finish, flush, closeAll, List.append_nil, List.append_assoc] at flushed ⊢
          exact flushed
      | false =>
          -- The line joins the paragraph, and its ending is the gap to the next one.
          have whole : breaks content = false := contentOf ▸ calm.whole piece List.mem_cons_self
          have rest := ih calm.tail (para ++ gap ++ content) ending ends fun more => by
            rintro rfl
            cases terminated more
          rw [run_continues blank whole]
          simp only [Line.stop, List.append_assoc, List.length_append, Nat.add_assoc] at rest ⊢
          exact rest

/-- Among some pieces, the first with something on it begins a paragraph that the others do not end. -/
def Quiet : List Bytes → Prop
  | [] => True
  | piece :: pieces =>
    if (Line.dropReturn piece).isBlank then Quiet pieces
    else beginsParagraph (Line.dropReturn piece) = true ∧ Calm pieces

theorem Quiet.cons {piece : Bytes} {pieces : List Bytes} (begins : beginsParagraph (Line.dropReturn piece) = true)
    (calm : Calm pieces) : Quiet (piece :: pieces) := by
  have filled : (Line.dropReturn piece).isBlank = false := by
    simp only [beginsParagraph, Bool.and_eq_true, Bool.not_eq_true'] at begins
    exact begins.1.1.1
  rw [Quiet, if_neg (by simp [filled])]
  exact ⟨begins, calm⟩

/-- Quiet lines are scanned as one stretch. -/
theorem run_quiet {pieces : List Bytes} (quiet : Quiet pieces) (front : Bytes) :
    run (front ++ Bytes.join [Bytes.lf] pieces) .start (Line.layOut front.length pieces) =
      scan none front.length (Bytes.join [Bytes.lf] pieces) := by
  induction pieces generalizing front with
  | nil =>
      rw [Bytes.join, Inline.scan_nil, Line.layOut]
      rfl
  | cons piece pieces ih =>
      obtain ⟨rfl, rfl⟩ | ⟨ending, ends, terminated, joined, laid⟩ := Line.layOut_cases front.length piece pieces
      · exact ih trivial front
      rw [Quiet] at quiet
      rw [joined, laid, State.start]
      generalize Line.dropReturn piece = content at *
      cases blank : content.isBlank with
      | true =>
          -- The scan passes over the line and is then at the start of the next.
          rw [if_pos blank] at quiet
          have rest := ih quiet (front ++ (content ++ ending))
          have plain : ∀ b ∈ content ++ ending, IsPlain b := fun b member =>
            (List.mem_append.mp member).elim (Inline.isPlain_of_isBlank blank b) (ends.plain b)
          have fresh : ∀ pos, scan (content ++ ending).getLast? pos (Bytes.join [Bytes.lf] pieces) =
              scan none pos (Bytes.join [Bytes.lf] pieces) := by
            intro pos
            cases pieces with
            | nil => rw [Bytes.join, Inline.scan_nil, Inline.scan_nil]
            | cons next pieces =>
                rw [List.getLast?_append, terminated (List.cons_ne_nil _ _)]
                exact Inline.scan_behind_lf pos _
          rw [run_idle_blank blank, Inline.scan_leading plain, Option.or_none, fresh, ← List.append_assoc front,
            ← List.length_append]
          exact rest
      | false =>
          rw [blank, if_neg (by decide)] at quiet
          have rest := run_calm quiet.2 front content ending ends fun more => by
            rintro rfl
            cases terminated more
          rw [run_begins quiet.1]
          simp only [Line.stop, List.append_assoc, List.length_append] at rest ⊢
          exact rest

/-- A directive that goes from the start of an open paragraph to the end of the text is in the paragraph, so the
lines in between do not end it. -/
theorem calm_of_spanning {text : Bytes} {stack : List Opening} {start stop pos : Nat} {pieces : List Bytes} {n : Node}
    (le : start ≤ stop) (behind : stop ≤ pos) (lt : start < pos)
    (length : text.length = pos + (Bytes.join [Bytes.lf] pieces).length)
    (member : n ∈ run text ⟨.paragraph start stop, stack⟩ (Line.layOut pos pieces)) (directive : n.kind = .directive)
    (first : n.start = start) (last : n.stop = text.length) : Calm pieces := by
  induction pieces generalizing stop pos with
  | nil => exact ⟨nofun, nofun⟩
  | cons piece pieces ih =>
      obtain ⟨rfl, rfl⟩ | ⟨ending, -, -, joined, laid⟩ := Line.layOut_cases pos piece pieces
      · refine ⟨fun piece member => ?_, nofun⟩
        rw [List.mem_singleton.mp member]
        rfl
      have fill := Line.fill_layOut pos (piece :: pieces)
      rw [← length, laid] at fill
      rw [laid] at member
      have here := (fill.starts _ List.mem_cons_self).2
      have inside := fill.bounds _ List.mem_cons_self
      have lines := fill.tail.starts
      cases ends : (Line.dropReturn piece).isBlank || breaks (Line.dropReturn piece) with
      | true =>
          -- The paragraph ends here, and the text does not.
          have flushed := mem_flush_of_mem_run (Bool.or_eq_true _ _ ▸ ends)
            (fun l' among => Nat.lt_of_lt_of_le here (lines l' among).1) member directive (by simp only; omega)
          have := stop_le_of_flush flushed le
          simp only at here inside
          omega
      | false =>
          obtain ⟨filled, whole⟩ := Bool.or_eq_false_iff.mp ends
          rw [run_continues (l := ⟨pos, Line.dropReturn piece, _⟩) filled whole] at member
          rw [joined, List.length_append] at length
          refine .cons filled whole (ih ?_ ?_ ?_ (by omega) member)
          all_goals simp only [Line.stop, List.length_append]; omega

/-! ## The first line with something on it -/

/-- Whether a line has something on it. -/
def isFilled (l : Line) : Bool := !l.content.isBlank

/-- A line that begins no paragraph hides what it holds. -/
theorem next_le_start_run {text : Bytes} {stack : List Opening} {pos stop : Nat} {ls : List Line} {l : Line} {n : Node}
    (fill : Line.Fill stop pos ls) (first : ls.find? isFilled = some l) (other : beginsParagraph l.content = false)
    (member : n ∈ run text ⟨.idle, stack⟩ ls) (directive : n.kind = .directive) : l.next ≤ n.start := by
  induction ls generalizing pos with
  | nil => cases first
  | cons l' ls ih =>
      cases blank : l'.content.isBlank with
      | true =>
          rw [List.find?_cons_of_neg (by simp [isFilled, blank])] at first
          rw [run_idle_blank blank] at member
          exact ih fill.tail first member
      | false =>
          rw [List.find?_cons_of_pos (by simp [isFilled, blank])] at first
          cases first
          obtain member | member := mem_run_cons.mp member
          · cases inline_step member (.inl directive)
          · have lines : ∀ l' ∈ ls, l.next ≤ l'.start := fun l' among => (fill.tail.starts l' among).1
            refine le_start_run (fun start stop opened => ?_) lines member directive
            obtain ⟨stop', known⟩ | ⟨-, begins⟩ := (leavesOpen_step opened).origin
            · cases known
            · rw [other] at begins
              cases begins

/-- Lines are quiet when the first one with something on it begins a paragraph and those behind the first are calm. -/
theorem quiet_of_first {pos : Nat} {pieces : List Bytes} (calm : Calm pieces.tail)
    (begins : ∀ l ∈ (Line.layOut pos pieces).find? isFilled, beginsParagraph l.content = true) : Quiet pieces := by
  induction pieces generalizing pos with
  | nil => trivial
  | cons piece pieces ih =>
      rw [Quiet]
      obtain ⟨rfl, rfl⟩ | ⟨ending, -, -, -, laid⟩ := Line.layOut_cases pos piece pieces
      · trivial
      rw [laid] at begins
      cases blank : (Line.dropReturn piece).isBlank with
      | true =>
          rw [List.find?_cons_of_neg (by simp [isFilled, blank])] at begins
          have behind : Calm pieces.tail := by
            cases pieces with
            | nil => exact calm
            | cons next pieces => exact calm.tail
          exact ih behind begins
      | false =>
          rw [List.find?_cons_of_pos (by simp [isFilled, blank])] at begins
          exact ⟨begins _ rfl, calm⟩

end Block

open Block in
/-- Where a directive goes over a whole text and the first line begins a paragraph, no other line ends it. -/
theorem calm_of_whole {t piece : Bytes} {pieces : List Bytes} {n : Node} (split : t.splitOn Bytes.lf = piece :: pieces)
    (begins : beginsParagraph (Line.dropReturn piece) = true) (member : n ∈ bodyNodes t 0)
    (directive : n.kind = .directive) (first : n.start = 0) (last : n.stop = t.length) : Calm pieces := by
  have content : 0 < (Line.dropReturn piece).length := by
    refine List.length_pos_iff.mpr fun none => ?_
    rw [none] at begins
    cases begins
  obtain ⟨rfl, -⟩ | ⟨ending, -, -, joined, laid⟩ := Line.layOut_cases 0 piece pieces
  · cases begins
  have length : t.length = (Line.dropReturn piece ++ ending).length + (Bytes.join [Bytes.lf] pieces).length := by
    rw [← List.length_append, ← joined, ← split, Bytes.join_splitOn]
  rw [mem_bodyNodes, List.drop_zero, Line.ofText, split, laid, State.start,
    run_begins (l := ⟨0, Line.dropReturn piece, _⟩) begins] at member
  refine calm_of_spanning ?_ ?_ ?_ (by rw [Nat.zero_add]; exact length) member directive first last
  all_goals simp only [Line.stop, List.length_append]; omega

/-- A quiet text has the nodes that it has as one stretch, wherever it stands. -/
theorem bodyNodes_quiet {t : Bytes} (quiet : Block.Quiet (t.splitOn Bytes.lf)) (front : Bytes) :
    bodyNodes (front ++ t) front.length = scan none front.length t := by
  have run := Block.run_quiet quiet front
  rw [Bytes.join_splitOn] at run
  rw [bodyNodes, List.drop_left, Line.ofText, run]
  exact mergeSort_eq_of_perm (Inline.nested_scan none front.length t 0) (.refl _)

end Colloquy.Document
