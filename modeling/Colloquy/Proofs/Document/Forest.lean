import Colloquy.Proofs.Document.Paragraph

/-! # Containers that hold containers

A document of lines of letters and of containers is a forest. Written line by line and scanned, the forest is found
again, however many colons each container has: a row of colons meets the container that was opened last, because all
those that were opened behind it are closed again, and it has as many colons as that one.
-/

namespace Colloquy.Document

/-! ## Forests -/

/-- Lines of letters and containers, each followed by the rest. -/
inductive Forest where
  | nil
  | line (text : Bytes) (rest : Forest)
  | container (colons : Nat) (name : Bytes) (children rest : Forest)

/-- A text of letters: those of ASCII, and anything outside it. -/
def IsLetters (t : Bytes) : Prop := ∀ b ∈ t, Bytes.isLetter b = true ∨ 0x80 ≤ b

instance (t : Bytes) : Decidable (IsLetters t) := List.decidableBAll _ t

/-- The name of a container: some letters, among which there is no white space. -/
structure IsAlphabetic (name : Bytes) : Prop where
  some : name ≠ []
  letters : IsLetters name
  visible : ∀ r ∈ name.runes, isWhiteSpace r.code = false

namespace Forest

/-- A row of colons. -/
def row (colons : Nat) : Bytes := List.replicate colons 0x3A

/-- The lines on which a forest is written: a container takes a row of colons with its name, its children's lines and
another row of as many colons. -/
def lines : Forest → List Bytes
  | nil => []
  | line text rest => text :: rest.lines
  | container colons name children rest => (row colons ++ name) :: (children.lines ++ row colons :: rest.lines)

def render (forest : Forest) : Bytes := forest.lines.flatMap fun line => line ++ [Bytes.lf]

inductive WellFormed : Forest → Prop where
  | nil : WellFormed nil
  | line {text : Bytes} {rest : Forest} (letters : IsLetters text) (formed : WellFormed rest) :
      WellFormed (line text rest)
  | container {colons : Nat} {name : Bytes} {children rest : Forest} (three : 3 ≤ colons) (named : IsAlphabetic name)
      (inner : WellFormed children) (formed : WellFormed rest) : WellFormed (container colons name children rest)

/-- The containers of a forest that is written on some lines, with `depth` containers around it: each goes from the
start of its first line to the end of its last one, and comes before those in it. -/
def nodes (depth : Nat) : Forest → List Line → List Node
  | line _ rest, _ :: ls => rest.nodes depth ls
  | container _ name children rest, opening :: ls =>
    match ls.drop children.lines.length with
    | closing :: behind =>
      ⟨.container, name, opening.start, closing.next, depth⟩ ::
        (children.nodes (depth + 1) ls ++ rest.nodes depth behind)
    | [] => []
  | _, _ => []

end Forest

/-! ## One line -/

/-- A byte of a text of letters is no other byte of ASCII. -/
theorem ne_of_letter_or_high {b c : UInt8} (letter : Bytes.isLetter b = true ∨ 0x80 ≤ b)
    (other : Bytes.isLetter c = false) (ascii : c < 0x80) : b ≠ c := by
  cases letter with
  | inl letter => exact Bytes.ne_of_class letter other
  | inr high =>
      rintro rfl
      exact absurd ascii (UInt8.not_lt.mpr high)

theorem ne_of_isLetters {b : UInt8} (letter : Bytes.isLetter b = true ∨ 0x80 ≤ b) :
    b ≠ 0x3A ∧ (b ≠ Bytes.space ∧ b ≠ Bytes.tab) ∧ (b ≠ 0x60 ∧ b ≠ 0x7E) ∧ b ≠ 0x3C := by
  refine ⟨?_, ⟨?_, ?_⟩, ⟨?_, ?_⟩, ?_⟩
  all_goals exact ne_of_letter_or_high letter rfl (by decide)

namespace Block

/-- Whether no code and no literal block is open, so that every line may be a row of colons. -/
def Mode.Flows : Mode → Prop
  | .idle | .paragraph .. => True
  | _ => False

theorem Mode.flows_idle : Mode.idle.Flows := trivial

section

variable {text : Bytes} {mode : Mode} {stack : List Opening} {l : Line} {ls : List Line} {colons : Nat} {name : Bytes}

theorem flush_free (free : ∀ b ∈ text, b ≠ 0x5B ∧ b ≠ 0x3C) (mode : Mode) : flush text mode = [] := by
  cases mode with
  | paragraph start stop =>
      exact Inline.scan_free (fun b member => free b (List.mem_of_mem_drop (List.mem_of_mem_take member))) none start
  | idle | indented | fenced | html => rfl

/-- A line of letters begins a paragraph if it is not blank. -/
theorem beginsParagraph_letters {t : Bytes} (letters : IsLetters t) (filled : t.isBlank = false) :
    beginsParagraph t = true := by
  cases t with
  | nil => cases filled
  | cons b t =>
      obtain ⟨colon, indent, fence, tag⟩ := ne_of_isLetters (letters b List.mem_cons_self)
      refine beginsParagraph_cons filled indent fence tag (eq_false_of_ne_true fun colons => colon ?_)
      obtain ⟨u, same⟩ := List.isPrefixOf_iff_prefix.mp colons
      exact (List.cons.inj same).1.symm

/-- A line of letters opens and closes no container. -/
theorem run_letters (free : ∀ b ∈ text, b ≠ 0x5B ∧ b ≠ 0x3C) (flows : mode.Flows) (stack : List Opening)
    (letters : IsLetters l.content) :
    ∃ mode' : Mode, mode'.Flows ∧ ∀ ls, run text ⟨mode, stack⟩ (l :: ls) = run text ⟨mode', stack⟩ ls := by
  cases blank : l.content.isBlank with
  | true =>
      refine ⟨.idle, Mode.flows_idle, fun ls => ?_⟩
      cases mode with
      | idle => exact run_idle_blank blank
      | paragraph start stop => rw [run_paragraph_blank blank, flush_free free, List.nil_append]
      | indented | fenced | html => cases flows
  | false =>
      have begins := beginsParagraph_letters letters blank
      cases mode with
      | idle => exact ⟨.paragraph l.start l.stop, trivial, fun ls => run_begins begins⟩
      | paragraph start stop =>
          simp only [beginsParagraph, Bool.and_eq_true, Bool.not_eq_true'] at begins
          exact ⟨.paragraph start l.stop, trivial, fun ls => run_continues blank begins.1.1.2⟩
      | indented | fenced | html => cases flows

/-- A row of colons ends a paragraph, and what it does to the containers depends on nothing else. -/
theorem run_colons (free : ∀ b ∈ text, b ≠ 0x5B ∧ b ≠ 0x3C) (flows : mode.Flows)
    (colons : Bytes.startsWith l.content (utf8 ":::") = true) :
    run text ⟨mode, stack⟩ (l :: ls) = (container stack l).2 ++ run text ⟨.idle, (container stack l).1⟩ ls := by
  obtain ⟨rest, same⟩ := List.isPrefixOf_iff_prefix.mp colons
  have content : l.content = 0x3A :: 0x3A :: 0x3A :: rest := same.symm
  have filled : l.content.isBlank = false := content ▸ Bytes.isBlank_cons (by decide) (by decide) _
  have spaces : (l.content.takeWhile (· == Bytes.space)).length = 0 := by rw [content]; rfl
  have noFence : openingFence? l.content = none := by rw [content]; rfl
  have column : Line.indent l.content = 0 := by rw [content]; rfl
  have opened : step text ⟨mode, stack⟩ l = (⟨.idle, (container stack l).1⟩, (container stack l).2) := by
    have line : openLine text ⟨mode, stack⟩ l = (⟨.idle, (container stack l).1⟩, (container stack l).2) := by
      simp [openLine, filled, spaces, noFence, column, colons, flush_free free]
    cases mode with
    | idle | paragraph => exact line
    | indented | fenced | html => cases flows
  rw [run, opened]

theorem startsWith_row (three : 3 ≤ colons) (name : Bytes) :
    Bytes.startsWith (Forest.row colons ++ name) (utf8 ":::") = true := by
  obtain ⟨more, rfl⟩ := Nat.exists_eq_add_of_le three
  refine List.isPrefixOf_iff_prefix.mpr ⟨Forest.row more ++ name, ?_⟩
  rw [Forest.row, Forest.row, List.replicate_add, List.append_assoc]
  rfl

/-- Behind a row of colons, a name is what follows them. -/
theorem containerName_row (colons : Nat) (name : Bytes) (letters : IsLetters name)
    (visible : ∀ r ∈ name.runes, isWhiteSpace r.code = false) :
    ((Forest.row colons ++ name).takeWhile (· == 0x3A)).length = colons ∧
      containerName (Forest.row colons ++ name) = name := by
  have stops : ∀ b ∈ name, (b == 0x3A) = false := fun b member =>
    beq_eq_false_iff_ne.mpr (ne_of_isLetters (letters b member)).1
  have run : (Forest.row colons ++ name).takeWhile (· == 0x3A) = Forest.row colons :=
    Inline.takeWhile_run (fun b member => beq_iff_eq.mpr (List.eq_of_mem_replicate member)) fun b first =>
      stops b (List.mem_of_mem_head? first)
  refine ⟨by rw [run, Forest.row, List.length_replicate], ?_⟩
  rw [containerName, run]
  simp only [List.drop_left]
  rw [Bytes.trim_eq_self visible, Bytes.trimEndWhile_eq_self stops, Bytes.trim_eq_self visible]

theorem container_opens (named : IsAlphabetic name) (content : l.content = Forest.row colons ++ name) :
    container stack l = (⟨name, colons, l.start⟩ :: stack, []) := by
  obtain ⟨length, called⟩ := containerName_row colons name named.letters named.visible
  have some : name.isEmpty = false := by simpa using named.some
  simp only [container, content, length, called, some]
  rfl

/-- As many colons as the innermost container was opened with close it. -/
theorem container_closes (top : Opening) (content : l.content = Forest.row top.colons) :
    container (top :: stack) l = (stack, [⟨.container, top.name, top.start, l.next, stack.length⟩]) := by
  obtain ⟨length, called⟩ := containerName_row top.colons [] nofun nofun
  rw [List.append_nil] at length called
  simp only [container, content, length, called, Nat.lt_irrefl]
  rfl

end

end Block

/-! ## A whole forest -/

namespace Forest

section

variable {forest : Forest} {text : Bytes} {mode : Block.Mode} {stack : List Block.Opening} {here : List Line}

/-- The lines of a container: its first, its children's, its last and those behind it. -/
theorem lines_container {colons : Nat} {name : Bytes} {children rest : Forest}
    (lines : here.map Line.content = (container colons name children rest).lines) :
    ∃ opening inner closing behind, here = opening :: (inner ++ closing :: behind) ∧
      opening.content = row colons ++ name ∧ inner.map Line.content = children.lines ∧
      closing.content = row colons ∧ behind.map Line.content = rest.lines := by
  obtain ⟨opening, here, rfl, first, lines⟩ := List.map_eq_cons_iff.mp lines
  obtain ⟨inner, here, rfl, held, lines⟩ := List.map_eq_append_iff.mp lines
  obtain ⟨closing, behind, rfl, last, lines⟩ := List.map_eq_cons_iff.mp lines
  exact ⟨opening, inner, closing, behind, rfl, first, held, last, lines⟩

theorem nodes_container_append {children : Forest} {inner : List Line}
    (held : inner.map Line.content = children.lines) (depth colons : Nat) (name : Bytes) (rest : Forest)
    (opening closing : Line) (behind : List Line) :
    (container colons name children rest).nodes depth (opening :: (inner ++ closing :: behind)) =
      ⟨.container, name, opening.start, closing.next, depth⟩ ::
        (children.nodes (depth + 1) (inner ++ closing :: behind) ++ rest.nodes depth behind) := by
  have length : children.lines.length = inner.length := by rw [← held, List.length_map]
  rw [nodes, length, List.drop_left]

/-- What follows a forest has no part in where its containers lie. -/
theorem nodes_append (lines : here.map Line.content = forest.lines) (depth : Nat) (behind : List Line) :
    forest.nodes depth (here ++ behind) = forest.nodes depth here := by
  induction forest generalizing here depth behind with
  | nil => simp only [nodes]
  | line text rest ih =>
      obtain ⟨l, here, rfl, -, lines⟩ := List.map_eq_cons_iff.mp lines
      exact ih lines depth behind
  | container colons name children rest ihInner ihRest =>
      obtain ⟨opening, inner, closing, after, rfl, -, held, -, lines⟩ := lines_container lines
      rw [List.cons_append, List.append_assoc, List.cons_append, nodes_container_append held,
        nodes_container_append held, ihInner held, ihInner held, ihRest lines]

theorem nodes_container {children : Forest} {inner : List Line} (held : inner.map Line.content = children.lines)
    (depth colons : Nat) (name : Bytes) (rest : Forest) (opening closing : Line) (behind : List Line) :
    (container colons name children rest).nodes depth (opening :: (inner ++ closing :: behind)) =
      ⟨.container, name, opening.start, closing.next, depth⟩ ::
        (children.nodes (depth + 1) inner ++ rest.nodes depth behind) := by
  rw [nodes_container_append held, nodes_append held]

/-- The containers of a forest are well nested. -/
theorem nested_nodes {start stop : Nat} (lines : here.map Line.content = forest.lines)
    (fill : Line.Fill stop start here) (depth : Nat) : Nested start stop depth (forest.nodes depth here) := by
  induction forest generalizing here start stop depth with
  | nil =>
      simp only [nodes]
      exact .nil fill.le
  | line text rest ih =>
      obtain ⟨l, here, rfl, -, lines⟩ := List.map_eq_cons_iff.mp lines
      have first := fill.starts l List.mem_cons_self
      exact (ih lines fill.tail depth).widen (by omega) (Nat.le_refl _)
  | container colons name children rest ihInner ihRest =>
      obtain ⟨opening, inner, closing, behind, rfl, -, held, -, lines⟩ := lines_container lines
      rw [nodes_container held]
      have first := fill.starts opening List.mem_cons_self
      obtain ⟨mid, front, after⟩ := fill.tail.append
      have last := after.starts closing List.mem_cons_self
      have inside := (ihInner held front (depth + 1)).widen first.2 (Nat.le_trans last.1 (Nat.le_of_lt last.2))
      exact .cons first.1 rfl (.inl (.inr rfl)) inside (ihRest lines after.tail depth)

/-- The lines of a forest complete its containers, those in a container before it, and leave the containers open that
were open in front. -/
theorem run_lines (free : ∀ b ∈ text, b ≠ 0x5B ∧ b ≠ 0x3C) (formed : forest.WellFormed)
    (lines : here.map Line.content = forest.lines) (flows : mode.Flows) (stack : List Block.Opening) :
    ∃ found, ∃ mode' : Block.Mode, mode'.Flows ∧ (forest.nodes stack.length here).Perm found ∧
      ∀ behind, Block.run text ⟨mode, stack⟩ (here ++ behind) = found ++ Block.run text ⟨mode', stack⟩ behind := by
  induction formed generalizing here mode stack with
  | nil =>
      obtain rfl : here = [] := List.map_eq_nil_iff.mp lines
      exact ⟨[], mode, flows, by simp only [nodes]; exact .nil, fun behind => rfl⟩
  | line letters _ ih =>
      obtain ⟨l, here, rfl, content, lines⟩ := List.map_eq_cons_iff.mp lines
      obtain ⟨passed, flows, step⟩ := Block.run_letters free flows stack (content ▸ letters)
      obtain ⟨found, mode', flows, order, run⟩ := ih lines flows stack
      exact ⟨found, mode', flows, order, fun behind => (step _).trans (run behind)⟩
  | @container colons name children rest three named _ _ ihInner ihRest =>
      obtain ⟨opening, inner, closing, after, rfl, first, held, last, lines⟩ := lines_container lines
      have opens := Block.startsWith_row three name
      have closes := Block.startsWith_row three []
      rw [← first] at opens
      rw [List.append_nil, ← last] at closes
      obtain ⟨inside, mode₁, flows₁, order₁, run₁⟩ := ihInner held Block.Mode.flows_idle
        (⟨name, colons, opening.start⟩ :: stack)
      obtain ⟨outside, mode₂, flows₂, order₂, run₂⟩ := ihRest lines Block.Mode.flows_idle stack
      -- The container is completed between those in it and those behind it.
      refine ⟨inside ++ ⟨.container, name, opening.start, closing.next, stack.length⟩ :: outside, mode₂, flows₂, ?_,
        fun behind => ?_⟩
      · rw [nodes_container held]
        exact ((order₁.append order₂).cons _).trans List.perm_middle.symm
      · rw [List.cons_append, Block.run_colons free flows opens, Block.container_opens named first, List.nil_append,
          List.append_assoc, run₁, List.cons_append, Block.run_colons free flows₁ closes,
          Block.container_closes ⟨name, colons, opening.start⟩ last, run₂]
        simp

/-! ## The forest as a document -/

theorem plain_of_lines (formed : forest.WellFormed) :
    ∀ line ∈ forest.lines, ∀ b ∈ line, b = 0x3A ∨ Bytes.isLetter b = true ∨ 0x80 ≤ b := by
  have colons : ∀ n, ∀ b ∈ row n, b = 0x3A ∨ Bytes.isLetter b = true ∨ 0x80 ≤ b :=
    fun n b member => .inl (List.eq_of_mem_replicate member)
  induction formed with
  | nil => nofun
  | line letters _ ih => exact List.forall_mem_cons.mpr ⟨fun b member => .inr (letters b member), ih⟩
  | container _ named _ _ ihInner ihRest =>
      refine List.forall_mem_cons.mpr ⟨fun b member => ?_, fun line member => ?_⟩
      · exact (List.mem_append.mp member).elim (colons _ b) fun name => .inr (named.letters b name)
      · obtain member | member := List.mem_append.mp member
        · exact ihInner line member
        · obtain rfl | member := List.mem_cons.mp member
          · exact colons _
          · exact ihRest line member

/-- No byte of a forest starts a header or an inline construct. -/
theorem free_of_lines (formed : forest.WellFormed) (lines : (Line.ofText 0 text).map Line.content = forest.lines) :
    ∀ b ∈ text, (b ≠ 0x5B ∧ b ≠ 0x3C) ∧ b ≠ 0x2D := by
  have other : ∀ b : UInt8, b = 0x3A ∨ Bytes.isLetter b = true ∨ 0x80 ≤ b → (b ≠ 0x5B ∧ b ≠ 0x3C) ∧ b ≠ 0x2D := by
    rintro b (rfl | letter)
    · decide
    · refine ⟨⟨?_, ?_⟩, ?_⟩
      all_goals exact ne_of_letter_or_high letter rfl (by decide)
  intro b member
  rw [← Bytes.join_splitOn text Bytes.lf] at member
  obtain plain | ⟨l, among, here⟩ := Line.isPlain_or_mem 0 _ b member
  · exact ⟨⟨plain.ne (by decide), plain.ne (by decide)⟩, plain.ne (by decide)⟩
  · refine other b (plain_of_lines formed l.content ?_ b here)
    rw [← lines]
    exact List.mem_map_of_mem among

theorem nodes_of_lines (formed : forest.WellFormed) (lines : (Line.ofText 0 text).map Line.content = forest.lines) :
    (ofText text).nodes = forest.nodes 0 (Line.ofText 0 text) := by
  have free := free_of_lines formed lines
  have header : Header.ofText? text = none :=
    Header.ofText?_eq_none fun hyphen => (free _ (List.mem_of_mem_head? hyphen)).2 rfl
  have fill := Line.fill_ofText 0 text
  obtain ⟨found, mode, flows, order, run⟩ := run_lines (fun b member => (free b member).1) formed lines
    Block.Mode.flows_idle []
  have ended : Block.run text ⟨mode, []⟩ [] = [] := by
    rw [Block.run, Block.finish]
    cases mode with
    | idle => rfl
    | paragraph => simp only [Block.flush_free fun b member => (free b member).1]; rfl
    | indented | fenced | html => cases flows
  have whole := run []
  rw [List.append_nil, ended, List.append_nil] at whole
  rw [ofText, header]
  change bodyNodes text 0 = _
  rw [bodyNodes, List.drop_zero, Block.State.start, whole]
  exact mergeSort_eq_of_perm (nested_nodes lines fill 0) order

/-- Written with line feeds, a forest has its lines. -/
theorem lines_render (formed : forest.WellFormed) : (Line.ofText 0 forest.render).map Line.content = forest.lines := by
  have other : ∀ b : UInt8, b = 0x3A ∨ Bytes.isLetter b = true ∨ 0x80 ≤ b → b ≠ Bytes.lf ∧ b ≠ Bytes.cr := by
    rintro b (rfl | letter)
    · decide
    · refine ⟨?_, ?_⟩
      all_goals exact ne_of_letter_or_high letter rfl (by decide)
  have plain := plain_of_lines formed
  rw [render]
  generalize forest.lines = lines at plain
  generalize 0 = start
  induction lines generalizing start with
  | nil => rfl
  | cons line lines ih =>
      obtain ⟨here, behind⟩ := List.forall_mem_cons.mp plain
      have free : Bytes.lf ∉ line := fun member => (other _ (here _ member)).1 rfl
      have kept := Line.dropReturn_eq_self fun member => (other _ (here _ member)).2 rfl
      rw [List.flatMap_cons, List.append_assoc, List.singleton_append, Line.ofText_line free, List.map_cons, kept,
        ih behind]

/-- A forest of containers that is written line by line is found again. In a text with the lines of the forest, each
written with a line feed or ended in another way, the nodes are its containers and nothing else, and each goes from the
start of its first line to the end of its last one. -/
theorem scan_recovers_forest (forest : Forest) (formed : forest.WellFormed) :
    (Line.ofText 0 forest.render).map Line.content = forest.lines ∧
      ∀ text, (Line.ofText 0 text).map Line.content = forest.lines →
        (ofText text).nodes = forest.nodes 0 (Line.ofText 0 text) :=
  ⟨lines_render formed, fun _ lines => nodes_of_lines formed lines⟩

/-- A container with fewer colons than the one around it, and one with more. -/
theorem scan_recovers_forest_colons :
    let forest : Forest := .container 4 (utf8 "Outer") (.line (utf8 "hi") (.container 3 (utf8 "In") .nil
      (.container 5 (utf8 "More") (.line (utf8 "x") .nil) .nil))) (.line (utf8 "tail") .nil)
    forest.render = utf8 "::::Outer\nhi\n:::In\n:::\n:::::More\nx\n:::::\n::::\ntail\n" ∧ forest.WellFormed ∧
      (ofText forest.render).nodes = [⟨.container, utf8 "Outer", 0, 46, 0⟩, ⟨.container, utf8 "In", 13, 23, 1⟩,
        ⟨.container, utf8 "More", 23, 41, 1⟩] := by
  intro forest
  have named : ∀ name ∈ [utf8 "Outer", utf8 "In", utf8 "More"],
      name ≠ [] ∧ IsLetters name ∧ ∀ r ∈ name.runes, isWhiteSpace r.code = false := by
    decide
  have alphabetic : ∀ name ∈ [utf8 "Outer", utf8 "In", utf8 "More"], IsAlphabetic name := fun name member =>
    ⟨(named name member).1, (named name member).2.1, (named name member).2.2⟩
  have formed : forest.WellFormed := by
    refine .container (by decide) (alphabetic _ (by decide)) (.line (by decide) ?_) (.line (by decide) .nil)
    refine .container (by decide) (alphabetic _ (by decide)) .nil ?_
    exact .container (by decide) (alphabetic _ (by decide)) (.line (by decide) .nil) .nil
  obtain ⟨lines, recovered⟩ := scan_recovers_forest forest formed
  exact ⟨by decide, formed, (recovered _ lines).trans (by decide)⟩

end

end Forest

end Colloquy.Document
