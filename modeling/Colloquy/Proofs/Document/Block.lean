import Colloquy.Document.Basic
import Colloquy.Proofs.Document.Inline
import Colloquy.Proofs.Document.Line

/-! # Blocks are well nested

Nodes are completed out of order: a container ends after everything that it holds. `Settled` says what the
nodes completed so far look like while containers are still open, one forest for each of them. `Reads` adds
the leaf block that the next line may continue. Every line keeps it, the end of the text closes what is open,
and what is left is one forest.

The scan of blocks decides with many conditions what a line does. What it can do is less: it completes some nodes,
keeps or ends the leaf block that is open, or opens another. `Opens` and what follows it say this once, so a later
invariant of the scan needs one case for each thing that a line can do and none of the conditions.
-/

namespace Colloquy.Document

namespace Block

/-- The nodes completed before `hi`, in any order: a forest in front of each open container, and one inside
the innermost. -/
inductive Settled (body : Nat) : (stack : List Opening) → (hi : Nat) → (found : List Node) → Prop where
  | root {hi : Nat} {ns found : List Node} : Nested body hi 0 ns → ns.Perm found →
      Settled body [] hi found
  | push {o : Opening} {stack : List Opening} {hi : Nat} {outer inner found : List Node} :
      Settled body stack o.start outer → Nested (o.start + 1) hi (stack.length + 1) inner →
      (outer ++ inner).Perm found → Settled body (o :: stack) hi found

namespace Settled

variable {body mid hi : Nat} {stack : List Opening} {found : List Node}

theorem perm {found' : List Node} (settled : Settled body stack hi found) (same : found.Perm found') :
    Settled body stack hi found' := by
  cases settled with
  | root nested order => exact .root nested (order.trans same)
  | push outer inner order => exact .push outer inner (order.trans same)

theorem append {ns : List Node} (settled : Settled body stack mid found)
    (behind : Nested mid hi stack.length ns) : Settled body stack hi (found ++ ns) := by
  cases settled with
  | root nested order => exact .root (nested.append behind) (order.append_right ns)
  | push outer inner order =>
      refine .push outer (inner.append behind) ?_
      rw [← List.append_assoc]
      exact order.append_right ns

theorem widen (settled : Settled body stack mid found) (le : mid ≤ hi) : Settled body stack hi found := by
  have same := settled.append (.nil le)
  rw [List.append_nil] at same
  exact same

theorem leaf {start stop : Nat} (settled : Settled body stack mid found) (kind : Kind) (name : Bytes)
    (plain : kind ≠ .container) (left : mid ≤ start) (lt : start < stop) (right : stop ≤ hi) :
    Settled body stack hi (found ++ [⟨kind, name, start, stop, 0⟩]) :=
  settled.append (.leaf left lt right plain rfl)

theorem opened {o : Opening} (settled : Settled body stack o.start found) (lt : o.start < hi) :
    Settled body (o :: stack) hi found :=
  .push settled (.nil lt) (by rw [List.append_nil])

/-- The innermost container is closed and holds what was found in it. -/
theorem closed {top : Opening} (settled : Settled body (top :: stack) mid found) (le : mid ≤ hi) :
    Settled body stack hi (found ++ [⟨.container, top.name, top.start, hi, stack.length⟩]) := by
  cases settled with
  | @push _ _ _ outer inner _ settled nested order =>
      have container : Nested top.start hi stack.length
          (⟨.container, top.name, top.start, hi, stack.length⟩ :: (inner ++ [])) :=
        .cons (Nat.le_refl _) rfl (.inl (.inr rfl)) (nested.widen (Nat.le_refl _) le) (.nil (Nat.le_refl _))
      -- It goes in front of what it holds, though it was found last.
      refine (settled.append container).perm ?_
      rw [List.append_nil]
      exact (List.perm_middle.trans (List.perm_append_singleton _ _).symm).trans
        (order.append_right _)

/-- The end of the text closes all containers. -/
theorem closeAll {stop : Nat} (settled : Settled body stack hi found) (le : hi ≤ stop) :
    Settled body [] stop (found ++ closeAll stop stack) := by
  induction stack generalizing hi found with
  | nil =>
      rw [Block.closeAll, List.append_nil]
      exact settled.widen le
  | cons top stack ih =>
      have rest := ih (settled.closed le) (Nat.le_refl _)
      rw [List.append_assoc] at rest
      exact rest

end Settled

/-- The leaf block that is open at `pos` starts at `lo` or behind it. -/
def Mode.Behind (lo pos : Nat) : Mode → Prop
  | .idle => lo ≤ pos
  | .paragraph start stop => lo ≤ start ∧ start ≤ stop ∧ stop ≤ pos
  | .indented start stop => lo ≤ start ∧ start < stop ∧ stop ≤ pos
  | .fenced _ _ start => lo ≤ start ∧ start < pos
  | .html _ start => lo ≤ start ∧ start < pos

namespace Mode.Behind

variable {lo pos pos' : Nat} {mode : Mode}

theorem le (behind : mode.Behind lo pos) : lo ≤ pos := by
  cases mode <;> simp only [Mode.Behind] at behind <;> omega

theorem mono (behind : mode.Behind lo pos) (le : pos ≤ pos') : mode.Behind lo pos' := by
  cases mode <;> simp only [Mode.Behind] at behind ⊢ <;> omega

/-- What a paragraph holds when it ends. -/
theorem nested_flush (behind : mode.Behind lo pos) (text : Bytes) (depth : Nat) :
    Nested lo pos depth (flush text mode) := by
  cases mode with
  | paragraph start stop =>
      obtain ⟨left, le, right⟩ := behind
      refine (Inline.nested_scan none start (text.slice start stop) depth).widen left ?_
      simp only [Bytes.slice, List.length_take, List.length_drop]
      omega
  | idle | indented | fenced | html => exact .nil behind.le

end Mode.Behind

/-- A state at `pos` and the nodes that have led to it. -/
def Reads (body : Nat) (st : State) (pos : Nat) (found : List Node) : Prop :=
  ∃ lo, Settled body st.stack lo found ∧ st.mode.Behind lo pos

namespace Reads

variable {body pos : Nat} {st : State} {found : List Node}

theorem of_mode {mode : Mode} (reads : Reads body st pos found) (known : st.mode = mode) :
    ∃ lo, Settled body st.stack lo found ∧ mode.Behind lo pos :=
  known ▸ reads

theorem idle {stack : List Opening} (settled : Settled body stack pos found) :
    Reads body ⟨.idle, stack⟩ pos found :=
  ⟨pos, settled, Nat.le_refl _⟩

theorem start (body : Nat) : Reads body .start body [] := idle (.root (.nil (Nat.le_refl _)) .nil)

theorem settled (reads : Reads body st pos found) : Settled body st.stack pos found := by
  obtain ⟨lo, settled, behind⟩ := reads
  exact settled.widen behind.le

theorem flush (reads : Reads body st pos found) (text : Bytes) :
    Settled body st.stack pos (found ++ flush text st.mode) := by
  obtain ⟨lo, settled, behind⟩ := reads
  exact settled.append (behind.nested_flush text _)

/-! ## Lines -/

variable {l : Line}

theorem container {stack : List Opening} (settled : Settled body stack l.start found)
    (lt : l.start < l.next) :
    Reads body ⟨.idle, (container stack l).1⟩ l.next (found ++ (container stack l).2) := by
  unfold Block.container
  simp only
  split
  · cases stack with
    | nil =>
        rw [List.append_nil]
        exact idle (settled.widen (Nat.le_of_lt lt))
    | cons top stack =>
        simp only
        split
        · rw [List.append_nil]
          exact idle (settled.widen (Nat.le_of_lt lt))
        · exact idle (settled.closed (Nat.le_of_lt lt))
  · rw [List.append_nil]
    exact idle (settled.opened lt)

theorem openLine (reads : Reads body st l.start found) (text : Bytes) (content : l.stop ≤ l.next)
    (lt : l.start < l.next) :
    Reads body (openLine text st l).1 l.next (found ++ (openLine text st l).2) := by
  have flushed := reads.flush text
  have settled := reads.settled
  have le := Nat.le_of_lt lt
  have nothing : ∀ {stack : List Opening} {mode : Mode} {lo : Nat}, Settled body stack lo found →
      mode.Behind lo l.next → Reads body ⟨mode, stack⟩ l.next (found ++ []) := by
    intro stack mode lo settled behind
    rw [List.append_nil]
    exact ⟨lo, settled, behind⟩
  -- A paragraph ends at a blank line, a fence and a container; the other openings are not tried in one.
  fun_cases Block.openLine text st l with
  | case1 mode blank => exact idle (flushed.widen le)
  | case2 => exact nothing settled ⟨Nat.le_refl _, lt, Nat.le_refl _⟩
  | case3 => exact ⟨l.start, flushed, Nat.le_refl _, lt⟩
  | case4 mode spaces inParagraph _ _ _ _ stack out closed =>
      have contained := container flushed lt
      rw [closed, List.append_assoc] at contained
      exact contained
  | case5 mode spaces inParagraph _ _ _ _ tag =>
      exact idle (settled.leaf .html tag nofun (Nat.le_refl _) lt (Nat.le_refl _))
  | case6 => exact nothing settled ⟨Nat.le_refl _, lt⟩
  | case7 mode _ _ _ _ _ _ _ start stop known =>
      obtain ⟨lo, settled, left, before, right⟩ := reads.of_mode known
      have := l.start_le_stop
      exact nothing settled ⟨left, by omega, content⟩
  | case8 => exact nothing settled ⟨Nat.le_refl _, l.start_le_stop, content⟩

/-- One line keeps what is known. -/
theorem step (reads : Reads body st l.start found) (text : Bytes) (content : l.stop ≤ l.next)
    (lt : l.start < l.next) : Reads body (step text st l).1 l.next (found ++ (step text st l).2) := by
  have le := Nat.le_of_lt lt
  have kept : Reads body st l.next (found ++ []) := by
    rw [List.append_nil]
    obtain ⟨lo, settled, behind⟩ := reads
    exact ⟨lo, settled, behind.mono le⟩
  fun_cases Block.step text st l with
  | case1 mark length start known =>
      obtain ⟨lo, settled, left, before⟩ := reads.of_mode known
      exact idle (settled.leaf .fencedCode [] nofun left (by omega) (Nat.le_refl _))
  | case3 tag start known =>
      obtain ⟨lo, settled, left, before⟩ := reads.of_mode known
      exact idle (settled.leaf .html tag nofun left before le)
  | case4 tag start known =>
      obtain ⟨lo, settled, left, before⟩ := reads.of_mode known
      exact idle (settled.leaf .html tag nofun left (by omega) (Nat.le_refl _))
  | case7 start stop known =>
      obtain ⟨lo, settled, left, before, right⟩ := reads.of_mode known
      rw [List.append_nil]
      exact ⟨lo, settled, left, by omega, Nat.le_refl _⟩
  | case8 start stop known _ _ st' out opened =>
      obtain ⟨lo, settled, left, before, right⟩ := reads.of_mode known
      have rest := openLine (idle (settled.leaf .indentedCode [] nofun left before right)) text content lt
      rw [opened, List.append_assoc] at rest
      exact rest
  | case2 | case5 | case6 => exact kept
  | case9 => exact reads.openLine text content lt

/-- The end of the text completes every node. -/
theorem finish {text : Bytes} (reads : Reads body st text.length found) :
    Settled body [] text.length (found ++ finish text st) := by
  have close : ∀ leaf, Settled body st.stack text.length (found ++ leaf) →
      Settled body [] text.length (found ++ (leaf ++ closeAll text.length st.stack)) := by
    intro leaf ended
    have all := ended.closeAll (Nat.le_refl _)
    rw [List.append_assoc] at all
    exact all
  refine close _ ?_
  split
  · rename_i known
    obtain ⟨lo, settled, left, before⟩ := reads.of_mode known
    exact settled.leaf .fencedCode [] nofun left before (Nat.le_refl _)
  · rename_i tag _ known
    obtain ⟨lo, settled, left, before⟩ := reads.of_mode known
    exact settled.leaf .html tag nofun left before (Nat.le_refl _)
  · rename_i known
    obtain ⟨lo, settled, left, before, right⟩ := reads.of_mode known
    exact settled.leaf .indentedCode [] nofun left before right
  · exact reads.flush text

theorem run {text : Bytes} {ls : List Line} (fill : Line.Fill text.length pos ls)
    (reads : Reads body st pos found) : Settled body [] text.length (found ++ run text st ls) := by
  induction fill generalizing st found with
  | nil => exact reads.finish
  | cons content lt _ ih =>
      have rest := ih (reads.step text content lt)
      rw [List.append_assoc] at rest
      exact rest

end Reads

end Block

theorem body_le (text : Bytes) : bodyOf (Header.ofText? text) ≤ text.length := by
  cases found : Header.ofText? text with
  | none => exact Nat.zero_le _
  | some h => exact Header.stop_le found

/-- Sorting by starts puts well-nested nodes back into their order, whatever order they were found in. -/
theorem mergeSort_eq_of_perm {lo hi depth : Nat} {ns found : List Node} (nested : Nested lo hi depth ns)
    (order : ns.Perm found) : found.mergeSort (fun a b => a.start ≤ b.start) = ns := by
  have sorted : ns.Pairwise fun a b => decide (a.start ≤ b.start) = true :=
    nested.pairwise_before.imp fun before => decide_eq_true (Nat.le_of_lt before.1)
  have same := (List.mergeSort_perm found fun a b => decide (a.start ≤ b.start)).trans order.symm
  refine List.Perm.eq_of_pairwise ?_ (List.pairwise_mergeSort ?_ ?_ found) sorted same
  · -- No two nodes start together.
    intro a b memberA memberB le le'
    have le := of_decide_eq_true le
    have le' := of_decide_eq_true le'
    obtain rfl | before | before := nested.before_or_after (same.mem_iff.mp memberA) memberB
    · rfl
    · exact absurd before.1 (Nat.not_lt.mpr le')
    · exact absurd before.1 (Nat.not_lt.mpr le)
  · intro a b c le le'
    exact decide_eq_true (Nat.le_trans (of_decide_eq_true le) (of_decide_eq_true le'))
  · intro a b
    simpa using Nat.le_total a.start b.start

/-- The nodes of a body are what a run through its lines completes. -/
theorem mem_bodyNodes {text : Bytes} {body : Nat} {n : Node} :
    n ∈ bodyNodes text body ↔ n ∈ Block.run text .start (Line.ofText body (text.drop body)) :=
  (List.mergeSort_perm _ _).mem_iff

theorem nested_bodyNodes {text : Bytes} {body : Nat} (le : body ≤ text.length) :
    Nested body text.length 0 (bodyNodes text body) := by
  obtain ⟨nested, order⟩ := (Block.Reads.start body).run (Line.fill_body le)
  rw [List.nil_append] at order
  rw [bodyNodes, mergeSort_eq_of_perm nested order]
  exact nested

/-- The nodes of every text start one after the other behind the header and lie in the text, two of them are
apart or one contains the other, only directives and containers contain nodes, and the depth of a container
counts the other containers that contain it. -/
theorem ofText_well_formed (text : Bytes) :
    let d := ofText text
    d.nodes.Pairwise (fun a b => a.start < b.start) ∧
    (∀ n ∈ d.nodes, d.body ≤ n.start ∧ n.start < n.stop ∧ n.stop ≤ text.length) ∧
    (∀ a ∈ d.nodes, ∀ b ∈ d.nodes,
      a.extent.Apart b.extent ∨ a.extent.Contains b.extent ∨ b.extent.Contains a.extent) ∧
    (∀ a ∈ d.nodes, a.kind ∈ [Kind.link, Kind.fencedCode, Kind.indentedCode, Kind.html] →
      ∀ b ∈ d.nodes, b ≠ a → ¬ a.extent.Contains b.extent) ∧
    (∀ n ∈ d.nodes, n.depth =
      if n.kind = .container then
        (d.nodes.filter fun a => a.kind = .container ∧ a ≠ n ∧ a.extent.Contains n.extent).length
      else 0) := by
  intro d
  have nested : Nested d.body text.length 0 d.nodes := nested_bodyNodes (body_le text)
  refine ⟨nested.pairwise_before.imp And.left, nested.bounds, fun a memberA b memberB =>
    nested.apart_or_contains memberA memberB, ?_, fun n member => nested.depth_eq_length member⟩
  intro a memberA plain b memberB other inside
  have holds := nested.holds_of_contains memberA memberB other inside
  simp only [List.mem_cons, List.not_mem_nil, or_false] at plain
  obtain holds | holds := holds <;> simp [holds] at plain

/-! ## What a line can do -/

namespace Block

/-- What a line can do that no code or literal block claims: the next state and the nodes that are complete. -/
inductive Opens (text : Bytes) (st : State) (l : Line) : State → List Node → Prop where
  | blank : Opens text st l ⟨.idle, st.stack⟩ (flush text st.mode)
  | indented : Opens text st l ⟨.indented l.start l.next, st.stack⟩ []
  | fence (mark : UInt8) (length : Nat) : Opens text st l ⟨.fenced mark length l.start, st.stack⟩ (flush text st.mode)
  | container : Opens text st l ⟨.idle, (container st.stack l).1⟩ (flush text st.mode ++ (container st.stack l).2)
  | literal {tag : Bytes} : (∀ start stop, st.mode ≠ .paragraph start stop) → openingTag? l.content = some tag →
      Opens text st l ⟨.idle, st.stack⟩ [⟨.html, tag, l.start, l.next, 0⟩]
  | tag {tag : Bytes} : (∀ start stop, st.mode ≠ .paragraph start stop) → openingTag? l.content = some tag →
      Opens text st l ⟨.html tag l.start, st.stack⟩ []
  | continued {start stop : Nat} : st.mode = .paragraph start stop →
      Opens text st l ⟨.paragraph start l.stop, st.stack⟩ []
  | begun : Opens text st l ⟨.paragraph l.start l.stop, st.stack⟩ []

/-- What a line can do. -/
inductive Steps (text : Bytes) (st : State) (l : Line) : State → List Node → Prop where
  | kept : Steps text st l st []
  | fenceClosed {mark : UInt8} {length start : Nat} : st.mode = .fenced mark length start →
      Steps text st l ⟨.idle, st.stack⟩ [⟨.fencedCode, [], start, l.next, 0⟩]
  | tagLeft {tag : Bytes} {start : Nat} : st.mode = .html tag start →
      Steps text st l ⟨.idle, st.stack⟩ [⟨.html, tag, start, l.start, 0⟩]
  | tagClosed {tag : Bytes} {start : Nat} : st.mode = .html tag start →
      Steps text st l ⟨.idle, st.stack⟩ [⟨.html, tag, start, l.next, 0⟩]
  | indentedOn {start stop : Nat} : st.mode = .indented start stop →
      Steps text st l ⟨.indented start l.next, st.stack⟩ []
  | indentedLeft {start stop : Nat} {st' : State} {out : List Node} : st.mode = .indented start stop →
      Opens text ⟨.idle, st.stack⟩ l st' out → Steps text st l st' (⟨.indentedCode, [], start, stop, 0⟩ :: out)
  | opens {st' : State} {out : List Node} : Opens text st l st' out → Steps text st l st' out

/-- What the end of the text can do to the leaf block that is open: the nodes that are complete. -/
inductive Ends (text : Bytes) : Mode → List Node → Prop where
  | fenced (mark : UInt8) (length start : Nat) :
      Ends text (.fenced mark length start) [⟨.fencedCode, [], start, text.length, 0⟩]
  | html (tag : Bytes) (start : Nat) : Ends text (.html tag start) [⟨.html, tag, start, text.length, 0⟩]
  | indented (start stop : Nat) : Ends text (.indented start stop) [⟨.indentedCode, [], start, stop, 0⟩]
  | flushed (mode : Mode) : Ends text mode (flush text mode)

/-- A tag is looked for outside of paragraphs and at the start of a line only. -/
theorem openingTag?_of_tried {mode : Mode} {line tag : Bytes} {spaces : Nat}
    (found : (if spaces == 0 && !(match mode with | .paragraph .. => true | _ => false) then openingTag? line
      else none) = some tag) :
    (∀ start stop, mode ≠ .paragraph start stop) ∧ openingTag? line = some tag := by
  rw [Option.ite_none_right_eq_some, Bool.and_eq_true] at found
  obtain ⟨⟨-, outside⟩, opened⟩ := found
  refine ⟨?_, opened⟩
  rintro start stop rfl
  cases outside

theorem opens_openLine (text : Bytes) (st : State) (l : Line) :
    Opens text st l (openLine text st l).1 (openLine text st l).2 := by
  fun_cases openLine text st l with
  | case1 => exact .blank
  | case2 => exact .indented
  | case3 => exact .fence _ _
  | case4 mode spaces inParagraph _ _ _ _ stack out closed =>
      have contained : Opens text st l _ _ := .container
      rw [closed] at contained
      exact contained
  | case5 mode spaces inParagraph _ _ _ _ tag found =>
      obtain ⟨outside, opened⟩ := openingTag?_of_tried found
      exact .literal outside opened
  | case6 mode spaces inParagraph _ _ _ _ tag found =>
      obtain ⟨outside, opened⟩ := openingTag?_of_tried found
      exact .tag outside opened
  | case7 mode _ _ _ _ _ _ _ start stop known => exact .continued known
  | case8 => exact .begun

theorem steps_step (text : Bytes) (st : State) (l : Line) :
    Steps text st l (step text st l).1 (step text st l).2 := by
  fun_cases step text st l with
  | case1 mark length start known => exact .fenceClosed known
  | case2 | case5 | case6 => exact .kept
  | case3 tag start known => exact .tagLeft known
  | case4 tag start known => exact .tagClosed known
  | case7 start stop known => exact .indentedOn known
  | case8 start stop known _ _ st' out opened =>
      have inner := opens_openLine text ⟨.idle, st.stack⟩ l
      rw [opened] at inner
      exact .indentedLeft known inner
  | case9 => exact .opens (opens_openLine text st l)

theorem exists_ends (text : Bytes) (st : State) :
    ∃ leaf, Ends text st.mode leaf ∧ finish text st = leaf ++ closeAll text.length st.stack := by
  obtain ⟨mode, stack⟩ := st
  refine ⟨_, ?_, rfl⟩
  cases mode with
  | fenced mark length start => exact .fenced mark length start
  | html tag start => exact .html tag start
  | indented start stop => exact .indented start stop
  | idle => exact .flushed .idle
  | paragraph start stop => exact .flushed (.paragraph start stop)

/-- What every line keeps from the state before it, if the line is good, holds to the end of the text. -/
theorem forall_run {text : Bytes} {keeps : State → Prop} {good : Line → Prop} {holds : Node → Prop}
    (lines : ∀ st l, keeps st → good l → keeps (step text st l).1 ∧ ∀ n ∈ (step text st l).2, holds n)
    (ends : ∀ {st}, keeps st → ∀ n ∈ finish text st, holds n) {ls : List Line} (st : State) (first : keeps st)
    (all : ∀ l ∈ ls, good l) : ∀ n ∈ run text st ls, holds n := by
  induction ls generalizing st with
  | nil => exact ends first
  | cons l ls ih =>
      obtain ⟨here, behind⟩ := List.forall_mem_cons.mp all
      obtain ⟨kept, found⟩ := lines st l first here
      exact List.forall_mem_append.mpr ⟨found, ih _ kept behind⟩

end Block

end Colloquy.Document
