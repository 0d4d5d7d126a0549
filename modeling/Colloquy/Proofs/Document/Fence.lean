import Colloquy.Proofs.Document.Paragraph
import Colloquy.Proofs.Document.Relocation

/-! # Fenced code is opaque

Between its fences, code is looked at only to find the line that closes it. So what is found in a text does not depend
on lines of code inside an open fence: the nodes in front of the fence are complete, those behind are found in what
stands behind, and none but the code itself and the containers around it reach over the code.
-/

namespace Colloquy

namespace Document

/-- The state of the scan when it has read a text to its end. -/
def stateBehind (front : Bytes) : Block.State :=
  Block.after front .start (Line.ofText (ofText front).body (front.drop (ofText front).body))

/-- Whole lines from the offset `start` on, none of which closes the fence. -/
structure StaysFenced (mark : UInt8) (length start : Nat) (inner : Bytes) : Prop where
  whole : inner.IsLines
  opened : ∀ l ∈ Line.ofText start inner, Block.closesFence mark length l.content = false

/-- Code and containers may lie over the lines of an open fence. -/
def Node.MaySpan (n : Node) : Prop := n.kind = .fencedCode ∨ n.kind = .container

namespace Block

variable {text : Bytes} {st : State} {stack : List Opening} {l : Line} {ls : List Line} {n : Node} {lo : Nat}

theorem after_fenced (text : Bytes) (stack : List Opening) {mark : UInt8} {length : Nat} (start : Nat)
    (opened : ∀ l ∈ ls, closesFence mark length l.content = false) :
    after text ⟨.fenced mark length start, stack⟩ ls = ⟨.fenced mark length start, stack⟩ ∧
    completed text ⟨.fenced mark length start, stack⟩ ls = [] := by
  induction ls with
  | nil => exact ⟨rfl, rfl⟩
  | cons l ls ih =>
      obtain ⟨here, behind⟩ := List.forall_mem_cons.mp opened
      have stays : step text ⟨.fenced mark length start, stack⟩ l = (⟨.fenced mark length start, stack⟩, []) := by
        simp only [step, here]
        rfl
      obtain ⟨state, none⟩ := ih behind
      refine ⟨?_, ?_⟩
      · rw [after, List.foldl_cons, stays]
        exact state
      · rw [completed, stays, none]
        rfl

/-! ## Nodes behind the code -/

/-- The leaf block that is open, unless it is fenced code, starts at `lo` or behind it. -/
def Mode.From (lo : Nat) : Mode → Prop
  | .idle | .fenced .. => True
  | .paragraph start _ | .indented start _ | .html _ start => lo ≤ start

theorem Mode.From.flush {mode : Mode} (clear : mode.From lo) (member : n ∈ flush text mode) : lo ≤ n.start := by
  cases mode with
  | paragraph start stop => exact Nat.le_trans clear (start_le_of_flush member)
  | idle | indented | fenced | html => cases member

/-- What is open behind a line and what the line completes start at `lo` or behind it, or may span code. -/
structure Clear (lo : Nat) (st : State) (out : List Node) : Prop where
  opened : st.mode.From lo
  found : ∀ n ∈ out, n.MaySpan ∨ lo ≤ n.start

theorem Opens.clear {st' : State} {out : List Node} (opens : Opens text st l st' out) (clear : st.mode.From lo)
    (le : lo ≤ l.start) : Clear lo st' out := by
  have flushed : ∀ n ∈ flush text st.mode, n.MaySpan ∨ lo ≤ n.start := fun n member => .inr (clear.flush member)
  cases opens with
  | blank | fence => exact ⟨trivial, flushed⟩
  | indented | tag | begun => exact ⟨le, List.forall_mem_nil _⟩
  | literal => exact ⟨trivial, List.forall_mem_singleton.mpr (.inr le)⟩
  | container =>
      refine ⟨trivial, List.forall_mem_append.mpr ⟨flushed, fun n member => ?_⟩⟩
      exact .inl (.inr (kind_of_container member))
  | continued known =>
      rw [known] at clear
      exact ⟨clear, List.forall_mem_nil _⟩

theorem clear_step (clear : st.mode.From lo) (le : lo ≤ l.start) :
    Clear lo (step text st l).1 (step text st l).2 := by
  have steps := steps_step text st l
  generalize (step text st l).1 = st', (step text st l).2 = out at steps ⊢
  cases steps with
  | kept => exact ⟨clear, List.forall_mem_nil _⟩
  | fenceClosed => exact ⟨trivial, List.forall_mem_singleton.mpr (.inl (.inl rfl))⟩
  | tagLeft known | tagClosed known =>
      rw [known] at clear
      exact ⟨trivial, List.forall_mem_singleton.mpr (.inr clear)⟩
  | indentedOn known =>
      rw [known] at clear
      exact ⟨clear, List.forall_mem_nil _⟩
  | indentedLeft known opens =>
      rw [known] at clear
      have inner : Clear lo _ _ := opens.clear trivial le
      exact ⟨inner.opened, List.forall_mem_cons.mpr ⟨.inr clear, inner.found⟩⟩
  | opens opens => exact opens.clear clear le

theorem from_finish (clear : st.mode.From lo) : ∀ n ∈ finish text st, n.MaySpan ∨ lo ≤ n.start := by
  obtain ⟨leaf, ends, same⟩ := exists_ends text st
  rw [same]
  refine List.forall_mem_append.mpr ⟨?_, fun n member => .inl (.inr (kind_of_closeAll member))⟩
  generalize st.mode = mode at ends clear
  cases ends with
  | fenced => exact List.forall_mem_singleton.mpr (.inl (.inl rfl))
  | html | indented => exact List.forall_mem_singleton.mpr (.inr clear)
  | flushed => exact fun n member => .inr (clear.flush member)

theorem from_run (st : State) (clear : st.mode.From lo) (lines : ∀ l ∈ ls, lo ≤ l.start) :
    ∀ n ∈ run text st ls, n.MaySpan ∨ lo ≤ n.start := by
  refine forall_run ?_ from_finish st clear lines
  intro st l clear here
  have read : Clear lo (step text st l).1 (step text st l).2 := clear_step clear here
  exact ⟨read.opened, read.found⟩

/-! ## Nodes in front of the code -/

theorem Settled.stop_le {body hi : Nat} {found : List Node} (settled : Settled body stack hi found) :
    ∀ n ∈ found, n.stop ≤ hi := by
  induction settled with
  | root nested order => exact fun n member => (nested.bounds n (order.mem_iff.mpr member)).2.2
  | push settled nested order ih =>
      intro n member
      obtain member | member := List.mem_append.mp (order.mem_iff.mpr member)
      · have := ih n member
        have := nested.le
        omega
      · exact (nested.bounds n member).2.2

theorem Reads.after (text : Bytes) {body hi pos : Nat} {found : List Node} (fill : Line.Fill hi pos ls)
    (reads : Reads body st pos found) : Reads body (after text st ls) hi (found ++ completed text st ls) := by
  induction fill generalizing st found with
  | nil =>
      rw [completed, List.append_nil]
      exact reads
  | cons content lt _ ih =>
      have rest := ih (reads.step text content lt)
      rw [List.append_assoc] at rest
      exact rest

end Block

/-- What follows whole lines that reach over the header does not change it. -/
theorem Header.ofText?_append {front : Bytes} (whole : front.IsLines) (more : bodyOf (ofText? front) < front.length)
    (u : Bytes) : ofText? (front ++ u) = ofText? front := by
  have lines := Line.ofText_append whole 0 u
  have fill := Line.fill_ofText 0 front
  unfold ofText? at more ⊢
  rw [lines]
  cases known : Line.ofText 0 front with
  | nil =>
      rw [known] at fill
      have empty := fill.eq_of_nil
      omega
  | cons opening rest =>
      rw [known] at more
      simp only [List.cons_append, List.find?_append] at more ⊢
      split
      · rename_i opens
        cases closing : rest.find? closes with
        | some l => rfl
        | none =>
            rw [if_pos opens, closing] at more
            exact absurd more (Nat.lt_irrefl _)
      · rfl

/-! ## The two texts -/

section

variable {front inner behind : Bytes} {mark : UInt8} {length start : Nat} {stack : List Block.Opening}

theorem body_lt_of_fenced (opened : stateBehind front = ⟨.fenced mark length start, stack⟩) :
    (ofText front).body < front.length := by
  have le : (ofText front).body ≤ front.length := body_le front
  refine Nat.lt_of_le_of_ne le fun all => ?_
  rw [stateBehind, all, List.drop_length] at opened
  cases opened

theorem coincide_front (front u u' : Bytes) : Block.Coincide (front ++ u) (front ++ u') 0 front.length := by
  intro start stop _ _ right
  rw [Inline.slice_append_of_le start right, Inline.slice_append_of_le start right]

theorem coincide_behind (front : Bytes) {inner' : Bytes} (size : inner'.length = inner.length) (behind : Bytes)
    (hi : Nat) :
    Block.Coincide (front ++ inner ++ behind) (front ++ inner' ++ behind) (front.length + inner.length) hi := by
  intro start stop left _ _
  rw [← List.length_append] at left
  have lengths : (front ++ inner').length = (front ++ inner).length := by simp only [List.length_append, size]
  have passed : ∀ u : Bytes, u.length ≤ start → (u ++ behind).drop start = behind.drop (start - u.length) :=
    fun u le => by rw [List.drop_append, List.drop_eq_nil_of_le le, List.nil_append]
  rw [Bytes.slice, Bytes.slice, passed _ left, passed _ (lengths ▸ left), lengths]

/-- With code in an open fence, a text has the header of what stands in front of the code, and the nodes completed there
are followed by those that are found behind the code. -/
theorem run_fenced (whole : front.IsLines) (opened : stateBehind front = ⟨.fenced mark length start, stack⟩)
    (stays : StaysFenced mark length front.length inner) (behind : Bytes) :
    Header.ofText? (front ++ inner ++ behind) = Header.ofText? front ∧
    (ofText (front ++ inner ++ behind)).nodes =
      (Block.completed front .start (Line.ofText (ofText front).body (front.drop (ofText front).body)) ++
        Block.run (front ++ inner ++ behind) ⟨.fenced mark length start, stack⟩
          (Line.ofText (front.length + inner.length) behind)).mergeSort fun a b => a.start ≤ b.start := by
  have more := body_lt_of_fenced opened
  have header : Header.ofText? (front ++ inner ++ behind) = Header.ofText? front := by
    rw [List.append_assoc]
    exact Header.ofText?_append whole more _
  refine ⟨header, ?_⟩
  have fill := Line.fill_body (Nat.le_of_lt more)
  have lines : Line.ofText (ofText front).body ((front ++ inner ++ behind).drop (ofText front).body) =
      Line.ofText (ofText front).body (front.drop (ofText front).body) ++
        (Line.ofText front.length inner ++ Line.ofText (front.length + inner.length) behind) := by
    rw [List.append_assoc, List.drop_append_of_le_length (Nat.le_of_lt more), Line.ofText_append (whole.drop _),
      List.length_drop, Nat.add_sub_of_le (Nat.le_of_lt more), Line.ofText_append stays.whole]
  have same := coincide_front front [] (inner ++ behind)
  rw [List.append_nil, ← List.append_assoc] at same
  obtain ⟨state, found⟩ := Block.after_congr .start same fill (Nat.zero_le _) trivial
  rw [show Block.after front .start _ = _ from opened] at state
  obtain ⟨still, none⟩ := Block.after_fenced (front ++ inner ++ behind) stack start stays.opened
  have nodes : (ofText (front ++ inner ++ behind)).nodes = bodyNodes (front ++ inner ++ behind) (ofText front).body :=
    congrArg (fun h => bodyNodes (front ++ inner ++ behind) (bodyOf h)) header
  rw [nodes, bodyNodes, lines, Block.run_append, Block.run_append, state, found, still, none, List.nil_append]

/-- Other code of the same size changes neither the header nor the nodes. -/
theorem nodes_fenced {inner' : Bytes} (whole : front.IsLines)
    (opened : stateBehind front = ⟨.fenced mark length start, stack⟩)
    (stays : StaysFenced mark length front.length inner) (stays' : StaysFenced mark length front.length inner')
    (size : inner'.length = inner.length) (behind : Bytes) :
    (ofText (front ++ inner' ++ behind)).nodes = (ofText (front ++ inner ++ behind)).nodes := by
  have total : (front ++ inner' ++ behind).length = (front ++ inner ++ behind).length := by
    simp only [List.length_append, size]
  have fill := Line.fill_ofText (front.length + inner.length) behind
  rw [← List.length_append, ← List.length_append] at fill
  have same := coincide_behind front size behind (front ++ inner ++ behind).length
  rw [← List.length_append] at same
  have found := Block.run_congr ⟨.fenced mark length start, stack⟩ same fill (Nat.le_refl _) trivial total
  rw [(run_fenced whole opened stays' behind).2, (run_fenced whole opened stays behind).2, size, ← List.length_append,
    found]

/-- Every node that may not span code ends in front of it or starts behind it. -/
theorem aside_of_fenced {n : Node} (whole : front.IsLines)
    (opened : stateBehind front = ⟨.fenced mark length start, stack⟩)
    (stays : StaysFenced mark length front.length inner) (behind : Bytes)
    (member : n ∈ (ofText (front ++ inner ++ behind)).nodes) :
    n.MaySpan ∨ n.stop ≤ front.length ∨ front.length + inner.length ≤ n.start := by
  rw [(run_fenced whole opened stays behind).2, (List.mergeSort_perm _ _).mem_iff] at member
  obtain member | member := List.mem_append.mp member
  · have more := body_lt_of_fenced opened
    have settled := ((Block.Reads.start _).after front (Line.fill_body (Nat.le_of_lt more))).settled
    exact .inr (.inl (settled.stop_le n member))
  · have fill := Line.fill_ofText (front.length + inner.length) behind
    have starts := fun l among => (fill.starts l among).1
    have behind := Block.from_run ⟨.fenced mark length start, stack⟩ trivial starts n member
    exact behind.imp_right .inr

end

end Document

end Colloquy
