import Colloquy.Proofs.Document.Fence
import Colloquy.Proofs.Document.Place

/-! # Literal blocks

A literal block starts with an angle bracket and the name of its tag, at the start of a line and outside of
paragraphs. The scanner keeps the tag in small letters and forgets how it was written: what is known of the block's
text is that its name is the tag with some letters capital, and where the name ends. Since no paragraph is open where a
literal block starts, nothing that stands in a paragraph touches one.
-/

namespace Colloquy.Document

/-- A text that starts with a tag whose name, in small letters, is `tag`. -/
def StartsTag (tag t : Bytes) : Prop :=
  ∃ name rest, t = 0x3C :: (name ++ rest) ∧ Bytes.lowerAscii name = tag ∧ (∀ b ∈ name, Block.isTagByte b = true) ∧
    ∀ b ∈ rest.head?, b ∈ [0x3E, Bytes.space, Bytes.tab, 0x2F, Bytes.cr, Bytes.lf]

theorem Block.startsTag_of_openingTag? {line tag tail : Bytes} (opened : openingTag? line = some tag)
    (ends : ∀ b ∈ tail.head?, b = Bytes.cr ∨ b = Bytes.lf) : StartsTag tag (line ++ tail) := by
  revert opened
  fun_cases openingTag? line with
  | case1 b rest letter name none =>
      rintro ⟨⟩
      have all : name ++ (b :: rest).dropWhile isTagByte = b :: rest := List.takeWhile_append_dropWhile
      rw [List.head?_eq_none_iff.mp none, List.append_nil] at all
      refine ⟨name, tail, by rw [all]; rfl, rfl, fun b member => List.mem_takeWhile_imp member, ?_⟩
      intro c first
      cases ends c first with
      | inl cr => simp [cr]
      | inr lf => simp [lf]
  | case2 b rest letter name c some sep =>
      rintro ⟨⟩
      have all : name ++ (b :: rest).dropWhile isTagByte = b :: rest := List.takeWhile_append_dropWhile
      refine ⟨name, (b :: rest).dropWhile isTagByte ++ tail, ?_, rfl, fun b member => List.mem_takeWhile_imp member, ?_⟩
      · rw [← List.append_assoc, all]
        rfl
      · intro d first
        rw [List.head?_append, some, Option.some_or, Option.mem_some_iff] at first
        subst first
        simp only [Bool.or_eq_true, beq_iff_eq] at sep
        simp only [List.mem_cons]
        tauto
  | case3 | case4 | case5 => exact nofun

namespace Line

/-- A line stands in a text, and its content ends where a line ends. -/
def StandsIn (text : Bytes) (l : Line) : Prop :=
  ∃ tail, text.drop l.start = l.content ++ tail ∧ ∀ b ∈ tail.head?, b = Bytes.cr ∨ b = Bytes.lf

theorem standsIn_ofText (front t : Bytes) : ∀ l ∈ ofText front.length t, l.StandsIn (front ++ t) := by
  have here : ∀ (front line tail : Bytes), (∀ b ∈ tail.head?, b = Bytes.lf) → ∀ next,
      StandsIn (front ++ (line ++ tail)) ⟨front.length, dropReturn line, next⟩ := by
    intro front line tail feed next
    obtain ⟨ending, trails, -, whole⟩ := exists_return line
    refine ⟨ending ++ tail, ?_, ?_⟩
    · rw [List.drop_left, ← List.append_assoc, ← whole]
    · intro b first
      cases ending with
      | nil => exact .inr (feed b first)
      | cons c ending => exact trails.ends b first
  induction t using Bytes.lineInduction generalizing front with
  | last t free =>
      rw [ofText_last free]
      split
      · exact List.forall_mem_nil _
      · have stands := here front t [] (by simp) (front.length + t.length)
        rw [List.append_nil] at stands
        exact List.forall_mem_singleton.mpr stands
  | more line rest free ih =>
      have text : front ++ (line ++ Bytes.lf :: rest) = (front ++ line ++ [Bytes.lf]) ++ rest := by simp
      have length : front.length + line.length + 1 = (front ++ line ++ [Bytes.lf]).length := by
        simp only [List.length_append, List.length_singleton]
      rw [ofText_line free]
      refine List.forall_mem_cons.mpr ⟨here front line _ (by simp) _, ?_⟩
      rw [text, length]
      exact ih _

end Line

/-- A literal block starts with its tag. -/
def Node.IsTagged (text : Bytes) (n : Node) : Prop := n.kind = .html → StartsTag n.name (text.drop n.start)

namespace Block

variable {text : Bytes} {st : State} {stack : List Opening} {l : Line} {ls : List Line} {n m : Node}

/-! ## Where a literal block starts -/

/-- The literal block that is open starts with its tag. -/
def Mode.IsTagged (text : Bytes) : Mode → Prop
  | .html tag start => StartsTag tag (text.drop start)
  | _ => True

theorem isInline_of_flush {mode : Mode} (member : n ∈ flush text mode) : n.kind.IsInline := by
  cases mode with
  | paragraph start stop =>
      obtain ⟨q, -, found⟩ := Inline.leads_of_mem member
      cases found with
      | directive => exact .inl rfl
      | link | autolink => exact .inr rfl
  | idle | indented | fenced | html => cases member

theorem not_html_of_flush {mode : Mode} (member : n ∈ flush text mode) : n.kind ≠ .html := by
  intro literal
  have inline := isInline_of_flush member
  rw [literal] at inline
  exact absurd inline (by decide)

theorem isTagged_of_flush {mode : Mode} (member : n ∈ flush text mode) : n.IsTagged text :=
  fun literal => absurd literal (not_html_of_flush member)

/-- What is open behind a line and what the line completes start with their tags, if they are literal blocks. -/
structure Tags (text : Bytes) (st : State) (out : List Node) : Prop where
  opened : st.mode.IsTagged text
  found : ∀ n ∈ out, n.IsTagged text

theorem Opens.tags {st' : State} {out : List Node} (opens : Opens text st l st' out) (stands : l.StandsIn text) :
    Tags text st' out := by
  have here : ∀ {tag}, openingTag? l.content = some tag → StartsTag tag (text.drop l.start) := by
    intro tag opened
    obtain ⟨tail, standing, ends⟩ := stands
    rw [standing]
    exact startsTag_of_openingTag? opened ends
  cases opens with
  | blank | fence => exact ⟨trivial, fun n => isTagged_of_flush⟩
  | indented | begun | continued => exact ⟨trivial, List.forall_mem_nil _⟩
  | tag _ opened => exact ⟨here opened, List.forall_mem_nil _⟩
  | literal _ opened => exact ⟨trivial, List.forall_mem_singleton.mpr fun _ => here opened⟩
  | container =>
      refine ⟨trivial, List.forall_mem_append.mpr ⟨fun n => isTagged_of_flush, fun n member literal => ?_⟩⟩
      rw [kind_of_container member] at literal
      cases literal

theorem tags_step (opened : st.mode.IsTagged text) (stands : l.StandsIn text) :
    Tags text (step text st l).1 (step text st l).2 := by
  have steps := steps_step text st l
  generalize (step text st l).1 = st', (step text st l).2 = out at steps ⊢
  cases steps with
  | kept => exact ⟨opened, List.forall_mem_nil _⟩
  | fenceClosed => exact ⟨trivial, List.forall_mem_singleton.mpr nofun⟩
  | tagLeft known | tagClosed known =>
      rw [known] at opened
      exact ⟨trivial, List.forall_mem_singleton.mpr fun _ => opened⟩
  | indentedOn => exact ⟨trivial, List.forall_mem_nil _⟩
  | indentedLeft _ opens =>
      have inner := opens.tags stands
      exact ⟨inner.opened, List.forall_mem_cons.mpr ⟨nofun, inner.found⟩⟩
  | opens opens => exact opens.tags stands

theorem isTagged_finish (opened : st.mode.IsTagged text) : ∀ n ∈ finish text st, n.IsTagged text := by
  obtain ⟨leaf, ends, same⟩ := exists_ends text st
  rw [same]
  refine List.forall_mem_append.mpr ⟨?_, fun n member literal => ?_⟩
  · generalize st.mode = mode at ends opened
    cases ends with
    | fenced | indented => exact List.forall_mem_singleton.mpr nofun
    | html => exact List.forall_mem_singleton.mpr fun _ => opened
    | flushed => exact fun n => isTagged_of_flush
  · rw [kind_of_closeAll member] at literal
    cases literal

theorem isTagged_run (st : State) (opened : st.mode.IsTagged text) (lines : ∀ l ∈ ls, l.StandsIn text) :
    ∀ n ∈ run text st ls, n.IsTagged text := by
  refine forall_run ?_ isTagged_finish st opened lines
  intro st l opened stands
  have read := tags_step opened stands
  exact ⟨read.opened, read.found⟩

/-! ## What stands in a paragraph does not reach a literal block -/

theorem Opens.from_next {st' : State} {out : List Node} (opens : Opens text st l st' out) (member : n ∈ out) (lo : Nat) :
    st'.mode.From lo := by
  cases opens with
  | blank | fence | container | literal => trivial
  | indented | tag | continued | begun => cases member

/-- A line that completes a literal block or what stands in a paragraph leaves nothing open that starts before the
next line. -/
theorem Steps.from_next {st' : State} {out : List Node} (steps : Steps text st l st' out) (member : n ∈ out)
    (kind : n.kind = .html ∨ n.kind.IsInline) (lo : Nat) : st'.mode.From lo := by
  cases steps with
  | kept | indentedOn => cases member
  | fenceClosed | tagLeft | tagClosed => trivial
  | indentedLeft _ opens =>
      cases List.mem_cons.mp member with
      | inl same =>
          subst same
          simp [Kind.IsInline] at kind
      | inr member => exact opens.from_next member lo
  | opens opens => exact opens.from_next member lo

theorem Opens.not_paragraph {st' : State} {out : List Node} (opens : Opens text st l st' out) (member : n ∈ out)
    (literal : n.kind = .html) (start stop : Nat) : st.mode ≠ .paragraph start stop := by
  cases opens with
  | blank | fence => exact absurd literal (not_html_of_flush member)
  | indented | tag | continued | begun => cases member
  | literal outside => exact outside start stop
  | container =>
      cases List.mem_append.mp member with
      | inl member => exact absurd literal (not_html_of_flush member)
      | inr member =>
          rw [kind_of_container member] at literal
          cases literal

/-- No line completes a literal block while a paragraph is open. -/
theorem Steps.not_paragraph {st' : State} {out : List Node} (steps : Steps text st l st' out) (member : n ∈ out)
    (literal : n.kind = .html) (start stop : Nat) : st.mode ≠ .paragraph start stop := by
  cases steps with
  | kept | indentedOn => cases member
  | fenceClosed known | tagLeft known | tagClosed known | indentedLeft known =>
      rw [known]
      exact nofun
  | opens opens => exact opens.not_paragraph member literal start stop

theorem exists_paragraph_of_flush {mode : Mode} (member : n ∈ flush text mode) :
    ∃ start stop, mode = .paragraph start stop := by
  cases mode with
  | paragraph start stop => exact ⟨start, stop, rfl⟩
  | idle | indented | fenced | html => cases member

/-- What stands in a paragraph ends before a literal block starts, or starts behind it. -/
theorem untouched_run {body pos : Nat} {found : List Node} (fill : Line.Fill text.length pos ls)
    (reads : Reads body st pos found) : ∀ n ∈ run text st ls, n.kind = .html → ∀ m ∈ run text st ls, m.kind.IsInline →
      m.stop < n.start ∨ n.stop ≤ m.start := by
  induction fill generalizing st found with
  | nil =>
      intro n memberN literal m memberM inline
      obtain ⟨start, stop, known⟩ := exists_paragraph_of_flush (inline_finish memberM inline)
      obtain ⟨leaf, ends, same⟩ := exists_ends text st
      rw [run, same] at memberN
      rw [known] at ends
      cases List.mem_append.mp memberN with
      | inr member =>
          rw [kind_of_closeAll member] at literal
          cases literal
      | inl member =>
          cases ends with
          | flushed => exact absurd literal (not_html_of_flush member)
  | @cons l ls content lt rest ih =>
      have steps := steps_step text st l
      have read := reads.step text content lt
      -- What later lines complete starts behind this line, unless what it completes tells nothing.
      have later : ∀ {a b : Node}, a ∈ (step text st l).2 → a.kind = .html ∨ a.kind.IsInline →
          b ∈ run text (step text st l).1 ls → b.kind = .html ∨ b.kind.IsInline → l.next ≤ b.start := by
        intro a b here kind behind kind'
        cases from_run _ (steps.from_next here kind l.next) (fun l' member => (rest.starts l' member).1) b behind with
        | inr le => exact le
        | inl spans => rcases spans with same | same <;> rw [same] at kind' <;> exact absurd kind' (by decide)
      intro n memberN literal m memberM inline
      rw [run, List.mem_append] at memberN memberM
      cases memberN with
      | inl hereN =>
          cases memberM with
          | inl hereM =>
              obtain ⟨start, stop, known⟩ := exists_paragraph_of_flush (inline_step hereM inline)
              exact absurd known (steps.not_paragraph hereN literal start stop)
          | inr laterM =>
              have ends := read.settled.stop_le n (List.mem_append_right _ hereN)
              exact .inr (Nat.le_trans ends (later hereN (.inl literal) laterM (.inr inline)))
      | inr laterN =>
          cases memberM with
          | inl hereM =>
              have ends := (reads.flush text).stop_le m (List.mem_append_right _ (inline_step hereM inline))
              have starts := later hereM (.inr inline) laterN (.inl literal)
              exact .inl (by omega)
          | inr laterM => exact ih read n laterN literal m laterM inline

end Block

/-- Every literal block of a document starts with its tag. -/
theorem startsTag_of_literal {text : Bytes} {n : Node} (member : n ∈ (ofText text).nodes) (literal : n.kind = .html) :
    StartsTag n.name (text.drop n.start) := by
  have le := body_le text
  have lines := Line.standsIn_ofText (text.take (bodyOf (Header.ofText? text)))
    (text.drop (bodyOf (Header.ofText? text)))
  rw [List.take_append_drop, List.length_take_of_le le] at lines
  exact Block.isTagged_run .start trivial lines n (mem_bodyNodes.mp member) literal

/-- No directive or link of a document touches a literal block. -/
theorem untouched_of_literal {text : Bytes} {n m : Node} (memberN : n ∈ (ofText text).nodes) (literal : n.kind = .html)
    (memberM : m ∈ (ofText text).nodes) (inline : m.kind.IsInline) : m.stop < n.start ∨ n.stop ≤ m.start :=
  Block.untouched_run (Line.fill_body (body_le text)) (.start _) n (mem_bodyNodes.mp memberN) literal m
    (mem_bodyNodes.mp memberM) inline

end Colloquy.Document
