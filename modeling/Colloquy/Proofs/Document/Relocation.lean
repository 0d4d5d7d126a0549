import Colloquy.Proofs.Document.Block

/-! # Scanning lines that have moved

The scan of blocks sees of a text only its lines and what is found in its paragraphs. When the lines of two texts have
the same contents and their paragraphs hold the same, the scan takes the same way through both, and what it finds lies
where the lines have moved to. A selection of kinds says what is compared: to follow the blocks alone, nothing has to be
known about paragraphs.
-/

namespace Colloquy.Document

def Node.relocate (f : Nat → Nat) (n : Node) : Node := { n with start := f n.start, stop := f n.stop }

def Line.relocate (f : Nat → Nat) (l : Line) : Line := { l with start := f l.start, next := f l.next }

theorem Node.relocate_id : Node.relocate id = id := rfl

theorem Line.relocate_id : Line.relocate id = id := rfl

/-- The nodes of the kinds that are selected. -/
def pick (keep : Kind → Bool) (ns : List Node) : List Node := ns.filter fun n => keep n.kind

section

variable {keep : Kind → Bool} {ns ms : List Node}

theorem pick_append : pick keep (ns ++ ms) = pick keep ns ++ pick keep ms := List.filter_append ..

theorem pick_relocate (f : Nat → Nat) : pick keep (ns.map (Node.relocate f)) = (pick keep ns).map (Node.relocate f) :=
  List.filter_map

theorem pick_node (f : Nat → Nat) (n : Node) :
    pick keep [n.relocate f] = (pick keep [n]).map (Node.relocate f) :=
  List.filter_map (l := [n])

theorem pick_all : pick (fun _ => true) ns = ns := List.filter_true ns

end

namespace Block

def Mode.relocate (f : Nat → Nat) : Mode → Mode
  | .idle => .idle
  | .paragraph start stop => .paragraph (f start) (f stop)
  | .indented start stop => .indented (f start) (f stop)
  | .fenced mark length start => .fenced mark length (f start)
  | .html tag start => .html tag (f start)

def Opening.relocate (f : Nat → Nat) (o : Opening) : Opening := { o with start := f o.start }

def State.relocate (f : Nat → Nat) (st : State) : State := ⟨st.mode.relocate f, st.stack.map (Opening.relocate f)⟩

theorem State.relocate_id (st : State) : st.relocate id = st := by
  obtain ⟨mode, stack⟩ := st
  have same : stack.map (Opening.relocate id) = stack := List.map_id stack
  rw [State.relocate, same]
  cases mode <;> rfl

/-- The state behind some lines. -/
def after (text : Bytes) (st : State) (ls : List Line) : State := ls.foldl (fun st l => (step text st l).1) st

/-- The nodes that some lines complete. -/
def completed (text : Bytes) : State → List Line → List Node
  | _, [] => []
  | st, l :: ls => (step text st l).2 ++ completed text (step text st l).1 ls

theorem run_append (text : Bytes) (st : State) (ls more : List Line) :
    run text st (ls ++ more) = completed text st ls ++ run text (after text st ls) more := by
  induction ls generalizing st with
  | nil => rfl
  | cons l ls ih =>
      change (step text st l).2 ++ run text (step text st l).1 (ls ++ more) = _
      rw [ih, completed, List.append_assoc]
      rfl

theorem run_eq (text : Bytes) (st : State) (ls : List Line) :
    run text st ls = completed text st ls ++ finish text (after text st ls) := by
  have whole := run_append text st ls []
  rw [List.append_nil] at whole
  exact whole

/-- A paragraph that is open starts at `lo` or behind it, and it has been read up to a place before `pos`. -/
def Mode.Within (lo pos : Nat) : Mode → Prop
  | .paragraph start stop => lo ≤ start ∧ start ≤ stop ∧ stop ≤ pos
  | _ => True

theorem Mode.Within.mono {lo pos pos' : Nat} {mode : Mode} (within : mode.Within lo pos) (le : pos ≤ pos') :
    mode.Within lo pos' := by
  cases mode with
  | paragraph start stop => exact ⟨within.1, within.2.1, Nat.le_trans within.2.2 le⟩
  | idle | indented | fenced | html => trivial

section

variable {text : Bytes} {st : State} {l : Line} {lo : Nat}

theorem Opens.within {st' : State} {out : List Node} (opens : Opens text st l st' out)
    (within : st.mode.Within lo l.start) (le : lo ≤ l.start) (content : l.stop ≤ l.next) :
    st'.mode.Within lo l.next := by
  have order := l.start_le_stop
  cases opens with
  | continued known =>
      rw [known] at within
      exact ⟨within.1, Nat.le_trans (Nat.le_trans within.2.1 within.2.2) order, content⟩
  | begun => exact ⟨le, order, content⟩
  | blank | indented | fence | container | literal | tag => trivial

theorem within_step (within : st.mode.Within lo l.start) (le : lo ≤ l.start) (content : l.stop ≤ l.next) :
    (step text st l).1.mode.Within lo l.next := by
  have steps := steps_step text st l
  generalize (step text st l).1 = st', (step text st l).2 = out at steps ⊢
  cases steps with
  | kept => exact within.mono (Nat.le_trans l.start_le_stop content)
  | indentedLeft _ opens => exact opens.within trivial le content
  | opens opens => exact opens.within within le content
  | fenceClosed | tagLeft | tagClosed | indentedOn => trivial

theorem within_after {pos hi : Nat} {ls : List Line} (within : st.mode.Within lo pos) (le : lo ≤ pos)
    (fill : Line.Fill hi pos ls) : (after text st ls).mode.Within lo hi := by
  induction fill generalizing st with
  | nil => exact within
  | cons content lt _ ih => exact ih (within_step within le content) (Nat.le_trans le (Nat.le_of_lt lt))

end

/-- What the paragraphs of a text between two offsets hold is found in the other text as well, where `f` moves it. -/
def Agrees (keep : Kind → Bool) (f : Nat → Nat) (text text' : Bytes) (lo hi : Nat) : Prop :=
  ∀ start stop, lo ≤ start → start ≤ stop → stop ≤ hi →
    pick keep (flush text' (.paragraph (f start) (f stop))) =
      (pick keep (flush text (.paragraph start stop))).map (Node.relocate f)

section

variable {keep : Kind → Bool} {f : Nat → Nat} {text text' : Bytes} {lo hi : Nat} {st : State} {l : Line}
  {ls : List Line} {stack : List Opening}

/-- What a line does to one scan is what it does to the other, moved. -/
structure Follows (keep : Kind → Bool) (f : Nat → Nat) (result result' : State × List Node) : Prop where
  state : result'.1 = result.1.relocate f
  found : pick keep result'.2 = (pick keep result.2).map (Node.relocate f)

theorem Follows.ite {c : Prop} [Decidable c] {a a' b b' : State × List Node} (yes : Follows keep f a a')
    (no : Follows keep f b b') : Follows keep f (if c then a else b) (if c then a' else b') := by
  split
  · exact yes
  · exact no

theorem Agrees.flush (agrees : Agrees keep f text text' lo hi) {mode : Mode} (within : mode.Within lo hi) :
    pick keep (flush text' (mode.relocate f)) = (pick keep (flush text mode)).map (Node.relocate f) := by
  cases mode with
  | paragraph start stop => exact agrees start stop within.1 within.2.1 within.2.2
  | idle | indented | fenced | html => rfl

theorem container_relocate (f : Nat → Nat) (stack : List Opening) (l : Line) :
    container (stack.map (Opening.relocate f)) (l.relocate f) =
      ((container stack l).1.map (Opening.relocate f), (container stack l).2.map (Node.relocate f)) := by
  have content : (l.relocate f).content = l.content := rfl
  simp only [container, content]
  generalize containerName l.content = name
  generalize (l.content.takeWhile (· == 0x3A)).length = colons
  cases name with
  | cons b name => rfl
  | nil =>
      cases stack with
      | nil => rfl
      | cons top stack =>
          simp only [List.isEmpty_nil, if_true, List.map_cons, Opening.relocate]
          split
          · rfl
          · rw [List.length_map]
            rfl

theorem closeAll_relocate (stop : Nat) :
    closeAll (f stop) (stack.map (Opening.relocate f)) = (closeAll stop stack).map (Node.relocate f) := by
  induction stack with
  | nil => rfl
  | cons top stack ih =>
      rw [List.map_cons, closeAll, ih, closeAll, List.map_cons, List.length_map]
      rfl

/-- One line does the same to both scans. -/
theorem openLine_relocate (agrees : Agrees keep f text text' lo hi) (within : st.mode.Within lo hi)
    (moved : f l.stop = f l.start + l.content.length) :
    Follows keep f (openLine text st l) (openLine text' (st.relocate f) (l.relocate f)) := by
  have flushed := agrees.flush within
  have stop : (l.relocate f).stop = f l.stop := moved.symm
  have content : (l.relocate f).content = l.content := rfl
  have contained := container_relocate f st.stack l
  obtain ⟨mode, stack⟩ := st
  change Follows keep f (openLine text ⟨mode, stack⟩ l)
    (openLine text' ⟨mode.relocate f, stack.map (Opening.relocate f)⟩ (l.relocate f))
  -- Only the content of the line and whether a paragraph is open decide, and neither has changed.
  cases mode with
  | paragraph start _ | idle | indented | fenced | html =>
      simp only [openLine, Mode.relocate, content, contained, stop]
      generalize container stack l = closed
      refine .ite ⟨rfl, flushed⟩ (.ite ⟨rfl, rfl⟩ ?_)
      split
      · exact ⟨rfl, flushed⟩
      refine .ite ⟨rfl, ?_⟩ ?_
      · rw [pick_append, pick_append, pick_relocate, List.map_append]
        exact congrArg (· ++ _) flushed
      split
      · rename_i tag opens
        simp only [opens]
        exact .ite ⟨rfl, pick_node f ⟨.html, tag, l.start, l.next, 0⟩⟩ ⟨rfl, rfl⟩
      · rename_i opens
        simp only [opens]
        exact ⟨rfl, rfl⟩

theorem step_relocate (agrees : Agrees keep f text text' lo hi) (within : st.mode.Within lo hi)
    (moved : f l.stop = f l.start + l.content.length) :
    Follows keep f (step text st l) (step text' (st.relocate f) (l.relocate f)) := by
  have content : (l.relocate f).content = l.content := rfl
  have opened := openLine_relocate agrees within moved
  obtain ⟨mode, stack⟩ := st
  change Follows keep f (step text ⟨mode, stack⟩ l)
    (step text' ⟨mode.relocate f, stack.map (Opening.relocate f)⟩ (l.relocate f))
  cases mode with
  | idle | paragraph => exact opened
  | fenced mark length start =>
      simp only [step, Mode.relocate, content]
      exact .ite ⟨rfl, pick_node f ⟨.fencedCode, [], start, l.next, 0⟩⟩ ⟨rfl, rfl⟩
  | html tag start =>
      simp only [step, Mode.relocate, content]
      refine .ite ⟨rfl, pick_node f ⟨.html, tag, start, l.start, 0⟩⟩ (.ite ⟨rfl, ?_⟩ ⟨rfl, rfl⟩)
      exact pick_node f ⟨.html, tag, start, l.next, 0⟩
  | indented start stop =>
      have rest : Follows keep f (openLine text ⟨.idle, stack⟩ l)
          (openLine text' (State.relocate f ⟨.idle, stack⟩) (l.relocate f)) :=
        openLine_relocate agrees trivial moved
      simp only [step, Mode.relocate, content]
      refine .ite ⟨rfl, rfl⟩ (.ite ⟨rfl, rfl⟩ ⟨rest.state, ?_⟩)
      have here : pick keep [Node.relocate f ⟨.indentedCode, [], start, stop, 0⟩] = _ := pick_node f _
      have both := congrArg₂ (· ++ ·) here rest.found
      rw [← List.map_append, ← pick_append, ← pick_append] at both
      exact both

theorem after_relocate {pos : Nat} (agrees : Agrees keep f text text' lo hi) (fill : Line.Fill hi pos ls)
    (le : lo ≤ pos) (within : st.mode.Within lo pos) (moved : ∀ l ∈ ls, f l.stop = f l.start + l.content.length) :
    after text' (st.relocate f) (ls.map (Line.relocate f)) = (after text st ls).relocate f ∧
    pick keep (completed text' (st.relocate f) (ls.map (Line.relocate f))) =
      (pick keep (completed text st ls)).map (Node.relocate f) := by
  induction fill generalizing st with
  | nil => exact ⟨rfl, rfl⟩
  | cons content lt behind ih =>
      obtain ⟨first, others⟩ := List.forall_mem_cons.mp moved
      have here := step_relocate agrees (within.mono (Nat.le_trans (Nat.le_of_lt lt) behind.le)) first
      have still : (step text _ _).1.mode.Within _ _ := within_step within le content
      have rest := ih (Nat.le_trans le (Nat.le_of_lt lt)) still others
      rw [← here.state] at rest
      refine ⟨rest.1, ?_⟩
      rw [List.map_cons, completed, completed, pick_append, pick_append, here.found, rest.2, List.map_append]

theorem finish_relocate (agrees : Agrees keep f text text' lo hi) (within : st.mode.Within lo hi)
    (length : text'.length = f text.length) :
    pick keep (finish text' (st.relocate f)) = (pick keep (finish text st)).map (Node.relocate f) := by
  have flushed := agrees.flush within
  obtain ⟨mode, stack⟩ := st
  have close : ∀ leaf leaf', pick keep leaf' = (pick keep leaf).map (Node.relocate f) →
      pick keep (leaf' ++ closeAll text'.length (stack.map (Opening.relocate f))) =
        (pick keep (leaf ++ closeAll text.length stack)).map (Node.relocate f) := by
    intro leaf leaf' ended
    rw [length, closeAll_relocate, pick_append, pick_append, ended, pick_relocate, List.map_append]
  cases mode with
  | idle | paragraph => exact close _ _ flushed
  | fenced mark size start =>
      refine close [⟨.fencedCode, [], start, text.length, 0⟩] [⟨.fencedCode, [], f start, text'.length, 0⟩] ?_
      rw [length]
      exact pick_node f ⟨.fencedCode, [], start, text.length, 0⟩
  | html tag start =>
      refine close [⟨.html, tag, start, text.length, 0⟩] [⟨.html, tag, f start, text'.length, 0⟩] ?_
      rw [length]
      exact pick_node f ⟨.html, tag, start, text.length, 0⟩
  | indented start stop => exact close [_] [_] (pick_node f ⟨.indentedCode, [], start, stop, 0⟩)

/-- The whole scan moves with its lines. -/
theorem run_relocate (st : State) {pos : Nat} (agrees : Agrees keep f text text' lo text.length)
    (fill : Line.Fill text.length pos ls) (le : lo ≤ pos) (within : st.mode.Within lo pos)
    (moved : ∀ l ∈ ls, f l.stop = f l.start + l.content.length) (length : text'.length = f text.length) :
    pick keep (run text' (st.relocate f) (ls.map (Line.relocate f))) =
      (pick keep (run text st ls)).map (Node.relocate f) := by
  have read := after_relocate agrees fill le within moved
  rw [run_eq, run_eq, pick_append, pick_append, read.1, read.2, List.map_append,
    finish_relocate agrees (within_after within le fill) length]

end

/-! ## The same lines in another text -/

section

variable {text text' : Bytes} {lo hi pos : Nat} {st : State} {ls : List Line}

/-- Two texts have the same bytes between two offsets. -/
def Coincide (text text' : Bytes) (lo hi : Nat) : Prop :=
  ∀ start stop, lo ≤ start → start ≤ stop → stop ≤ hi → text'.slice start stop = text.slice start stop

theorem Coincide.agrees (same : Coincide text text' lo hi) : Agrees (fun _ => true) id text text' lo hi := by
  intro start stop left le right
  rw [pick_all, pick_all, Node.relocate_id, List.map_id, flush, flush]
  exact congrArg (Inline.nodes start) (same start stop left le right)

theorem after_congr (st : State) (same : Coincide text text' lo hi) (fill : Line.Fill hi pos ls) (le : lo ≤ pos)
    (within : st.mode.Within lo pos) :
    after text' st ls = after text st ls ∧ completed text' st ls = completed text st ls := by
  have read := after_relocate same.agrees fill le within fun _ _ => rfl
  simp only [State.relocate_id, Line.relocate_id, Node.relocate_id, List.map_id, pick_all] at read
  exact read

theorem run_congr (st : State) (same : Coincide text text' lo text.length) (fill : Line.Fill text.length pos ls)
    (le : lo ≤ pos) (within : st.mode.Within lo pos) (length : text'.length = text.length) :
    run text' st ls = run text st ls := by
  have read := run_relocate st same.agrees fill le within (fun _ _ => rfl) length
  simp only [State.relocate_id, Line.relocate_id, Node.relocate_id, List.map_id, pick_all] at read
  exact read

end

end Block

/-- When the lines of a body have moved and their order is kept, so have its nodes. -/
theorem bodyNodes_relocate {keep : Kind → Bool} {f : Nat → Nat} {text text' : Bytes} {body body' : Nat}
    (mono : ∀ a b, a < b → f a < f b) (le : body ≤ text.length) (le' : body' ≤ text'.length)
    (lines : Line.ofText body' (text'.drop body') = (Line.ofText body (text.drop body)).map (Line.relocate f))
    (moved : ∀ l ∈ Line.ofText body (text.drop body), f l.stop = f l.start + l.content.length)
    (length : text'.length = f text.length) (agrees : Block.Agrees keep f text text' body text.length) :
    pick keep (bodyNodes text' body') = (pick keep (bodyNodes text body)).map (Node.relocate f) := by
  have fill := Line.fill_body le
  have found := Block.run_relocate .start agrees fill (Nat.le_refl _) trivial moved length
  rw [← lines, show Block.State.start.relocate f = .start from rfl] at found
  -- Sorting by starts does not undo it, because no two nodes start together.
  have perm : (pick keep (bodyNodes text' body')).Perm ((pick keep (bodyNodes text body)).map (Node.relocate f)) := by
    have sorted : ∀ text body, (pick keep (bodyNodes text body)).Perm
        (pick keep (Block.run text .start (Line.ofText body (text.drop body)))) :=
      fun _ _ => (List.mergeSort_perm _ _).filter _
    have moved := ((sorted text body).map (Node.relocate f)).symm
    rw [← found] at moved
    exact (sorted text' body').trans moved
  have before : ∀ ns : List Node, ns.Pairwise Nested.Before → (pick keep ns).Pairwise fun a b => a.start < b.start :=
    fun ns nested => (nested.imp And.left).filter _
  refine perm.eq_of_pairwise (fun a b _ _ lt gt => absurd lt (Nat.lt_asymm gt))
    (before _ (nested_bodyNodes le').pairwise_before) (List.pairwise_map.mpr ?_)
  exact (before _ (nested_bodyNodes le).pairwise_before).imp fun lt => mono _ _ lt

end Colloquy.Document
