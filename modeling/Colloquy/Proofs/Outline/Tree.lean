import Colloquy.Proofs.Outline.Bracket

/-! # Directives that hold directives

A line of plain text and directives is a tree: a directive holds a line of its own between its brackets. Written down
and scanned, the tree is found again. The brackets of a directive match because those of everything in it do, and the
contents are scanned like a line, whose directives come before those behind the directive.
-/

namespace Colloquy.Document.Inline

/-- A line of plain chunks and directives, each followed by the rest of the line. -/
inductive Tree where
  | nil
  | text (chunk : Bytes) (rest : Tree)
  | directive (name : Bytes) (contents rest : Tree)

/-- A letter, a digit, a space, a comma or a full stop. -/
def isProseByte (b : UInt8) : Bool :=
  Bytes.isLetter b || Bytes.isDigit b || b == Bytes.space || b == 0x2C || b == 0x2E

namespace Tree

def render : Tree → Bytes
  | nil => []
  | text chunk rest => chunk ++ rest.render
  | directive name contents rest => 0x3A :: (name ++ 0x5B :: (contents.render ++ 0x5D :: rest.render))

/-- Whether the first thing on the line is a directive. -/
def StartsDirective : Tree → Prop
  | directive .. => True
  | _ => False

/-- Whether the line starts with a letter or with a directive. -/
def Begins : Tree → Prop
  | text chunk _ => ∃ b ∈ chunk.head?, Bytes.isLetter b = true
  | tree => tree.StartsDirective

/-- Chunks have plain bytes and at least one of them, a chunk right before a directive does not end in a letter or a
digit, and directives have names. -/
inductive WellFormed : Tree → Prop where
  | nil : WellFormed nil
  | text {chunk : Bytes} {rest : Tree} (filled : chunk ≠ []) (prose : ∀ b ∈ chunk, isProseByte b = true)
      (apart : rest.StartsDirective → ∀ b ∈ chunk.getLast?, Bytes.isLetter b = false ∧ Bytes.isDigit b = false)
      (formed : WellFormed rest) : WellFormed (text chunk rest)
  | directive {name : Bytes} {contents rest : Tree} (named : IsName name) (inner : WellFormed contents)
      (formed : WellFormed rest) : WellFormed (directive name contents rest)

/-- A directive of a tree, with the offset of its colon. -/
structure Item where
  start : Nat
  name : Bytes
  contents : Tree

namespace Item

/-- How the directive is written. -/
def written (i : Item) : Bytes := (directive i.name i.contents nil).render

def inner (i : Item) : Extent :=
  ⟨i.start + i.name.length + 2, i.start + i.name.length + 2 + i.contents.render.length⟩

def extent (i : Item) : Extent := ⟨i.start, i.inner.stop + 1⟩

/-- The node that a scan reports for the directive. -/
def node (i : Item) : Node := ⟨.directive, i.name, i.extent.start, i.extent.stop, 0⟩

/-- The directive as the outline shows it. -/
def shown (i : Item) : Colloquy.Directive := ⟨Bytes.lowerAscii i.name, i.extent, i.inner⟩

end Item

/-- The directives of a tree that is written at offset `pos`: each before those in it, and these before those behind
it. -/
def items (pos : Nat) : Tree → List Item
  | nil => []
  | text chunk rest => rest.items (pos + chunk.length)
  | directive name contents rest =>
    let i : Item := ⟨pos, name, contents⟩
    i :: (contents.items i.inner.start ++ rest.items i.extent.stop)

/-! ## Bytes of a tree -/

section

variable {b : UInt8}

theorem inert_prose (prose : isProseByte b = true) (rest : Bytes) : Inert b rest := by
  have bracket : b ≠ 0x5B := Bytes.ne_of_class prose rfl
  have bang : b ≠ 0x21 := Bytes.ne_of_class prose rfl
  exact ⟨Bytes.ne_of_class prose rfl, Bytes.ne_of_class prose rfl, Bytes.ne_of_class prose rfl,
    by simp [startsLink, bracket, bang], Bytes.ne_of_class prose rfl⟩

/-- The bytes of chunks and names mean nothing between brackets. -/
theorem no_bracket (plain : isProseByte b = true ∨ isNameByte b = true) :
    b ≠ Bracket.backslash ∧ b ≠ 0x5B ∧ b ≠ 0x5D := by
  cases plain with
  | inl prose => exact ⟨Bytes.ne_of_class prose rfl, Bytes.ne_of_class prose rfl, Bytes.ne_of_class prose rfl⟩
  | inr named => exact ⟨Bytes.ne_of_class named rfl, Bytes.ne_of_class named rfl, Bytes.ne_of_class named rfl⟩

theorem ne_lf (plain : isProseByte b = true ∨ isNameByte b = true) : b ≠ Bytes.lf ∧ b ≠ Bytes.cr := by
  cases plain with
  | inl prose => exact ⟨Bytes.ne_of_class prose rfl, Bytes.ne_of_class prose rfl⟩
  | inr named => exact ⟨Bytes.ne_of_class named rfl, Bytes.ne_of_class named rfl⟩

end

/-! ## What the scan finds in a tree -/

section

variable {tree : Tree}

/-- Whatever is open in front of a tree, all the brackets that it opens it closes. -/
theorem closingFrom_render (formed : tree.WellFormed) {depth : Int} (deep : 1 ≤ depth) (pos : Nat) (behind : Bytes) :
    Bracket.closingFrom 0x5B 0x5D false depth pos (tree.render ++ behind) =
      Bracket.closingFrom 0x5B 0x5D false depth (pos + tree.render.length) behind := by
  induction formed generalizing depth pos behind with
  | nil => rfl
  | @text chunk rest _ prose _ _ ih =>
      rw [render, List.append_assoc, Bracket.closingFrom_passed fun b member => no_bracket (.inl (prose b member)),
        ih deep, List.length_append, Nat.add_assoc]
  | @directive name contents rest named _ _ ihInner ihRest =>
      have colon : ∀ b ∈ 0x3A :: name, b ≠ Bracket.backslash ∧ b ≠ 0x5B ∧ b ≠ 0x5D :=
        List.forall_mem_cons.mpr ⟨by decide, fun b member => no_bracket (.inr (named.bytes b member))⟩
      have whole : (directive name contents rest).render ++ behind =
          (0x3A :: name) ++ 0x5B :: (contents.render ++ 0x5D :: (rest.render ++ behind)) := by
        simp [render]
      have opens : ∀ pos t, Bracket.closingFrom 0x5B 0x5D false depth pos (0x5B :: t) =
          Bracket.closingFrom 0x5B 0x5D false (depth + 1) (pos + 1) t := fun pos t => rfl
      have closes : ∀ pos t, Bracket.closingFrom 0x5B 0x5D false (depth + 1) pos (0x5D :: t) =
          Bracket.closingFrom 0x5B 0x5D false depth (pos + 1) t := by
        intro pos t
        rw [Bracket.closingFrom, if_neg (by decide), if_neg (by decide), if_pos (by rfl), if_neg (by simp; omega),
          Int.add_sub_cancel]
      rw [whole, Bracket.closingFrom_passed colon, opens, ihInner (by omega), closes, ihRest deep]
      congr 1
      simp only [render, List.length_cons, List.length_append]
      omega

/-- Brackets around a tree close each other. -/
theorem square?_render (formed : tree.WellFormed) (behind : Bytes) :
    Bracket.square? (0x5B :: (tree.render ++ 0x5D :: behind)) = some (tree.render.length + 1) := by
  have inside := closingFrom_render formed (Int.le_refl 1) 1 (0x5D :: behind)
  rw [Nat.add_comm] at inside
  exact inside

/-- No attributes stand in front of a tree. -/
theorem attributesLength_render (formed : tree.WellFormed) : attributesLength tree.render = 0 := by
  have other : tree.render.head? ≠ some 0x7B := by
    cases formed with
    | nil => nofun
    | @text chunk rest filled prose =>
        obtain ⟨b, chunk, rfl⟩ := List.exists_cons_of_ne_nil filled
        have first := prose b List.mem_cons_self
        rintro ⟨⟩
        cases first
    | directive => exact fun same => absurd (Option.some.inj same) (by decide)
  rw [attributesLength, if_neg (by simpa using other)]

theorem directive?_render {name : Bytes} {contents rest : Tree} (named : IsName name) (inner : contents.WellFormed)
    (formed : rest.WellFormed) :
    directive? (name ++ 0x5B :: (contents.render ++ 0x5D :: rest.render)) = some ⟨name, contents.render, 0⟩ :=
  DirectiveParts.Spelled.directive?_eq
    ⟨rfl, named, square?_render inner rest.render, (attributesLength_render formed).symm⟩

/-- The contents of a directive without attributes are scanned, and then what follows its closing bracket. -/
theorem scan_written {before : Option UInt8} {name inner tail : Bytes}
    (found : directiveAt? before (name ++ 0x5B :: (inner ++ 0x5D :: tail)) = some ⟨name, inner, 0⟩) (pos : Nat) :
    scan before pos (0x3A :: (name ++ 0x5B :: (inner ++ 0x5D :: tail))) =
      ⟨.directive, name, pos, pos + name.length + 2 + inner.length + 1, 0⟩ ::
        (scan none (pos + name.length + 2) inner ++
          scan (some 0x5D) (pos + name.length + 2 + inner.length + 1) tail) := by
  generalize frontOf : name ++ 0x5B :: inner = front
  have text : name ++ 0x5B :: (inner ++ 0x5D :: tail) = front ++ 0x5D :: tail := by simp [← frontOf]
  have length : (DirectiveParts.mk name inner 0).length = front.length + 2 := by
    simp only [DirectiveParts.length, ← frontOf, List.length_append, List.length_cons]
    omega
  have stop : pos + name.length + 2 + inner.length + 1 = pos + (front.length + 2) := by
    simp only [← frontOf, List.length_append, List.length_cons]
    omega
  have last : lastOf (0x3A :: (front ++ 0x5D :: tail)) (front.length + 2) = some 0x5D := by simp [lastOf]
  have behind : (front ++ 0x5D :: tail).drop (front.length + 2 - 1) = tail := by
    rw [Nat.add_succ_sub_one, ← List.singleton_append, ← List.append_assoc]
    exact List.drop_left' List.length_append
  rw [scan_directive found, text, length, stop, last, behind]

/-- A scan finds the directives of a tree and nothing else, provided that what stands in front lets the first one
start. -/
theorem scan_render (formed : tree.WellFormed) {before : Option UInt8}
    (free : tree.StartsDirective → mayStartDirective before = true) (pos : Nat) :
    scan before pos tree.render = (tree.items pos).map Item.node := by
  induction formed generalizing before pos with
  | nil => exact scan_nil
  | @text chunk rest filled prose apart _ ih =>
      rw [render, scan_passed fun b member => inert_prose (prose b member), items]
      refine ih (fun starts => ?_) _
      -- The last byte of the chunk stands in front of the directive.
      obtain ⟨last, ends⟩ := Option.isSome_iff_exists.mp (List.getLast?_isSome.mpr filled)
      obtain ⟨letter, digit⟩ := apart starts last ends
      have colon : last ≠ 0x3A := (inert_prose (prose last (List.mem_of_getLast? ends)) []).2.2.1
      simp [ends, mayStartDirective, letter, digit, colon]
  | @directive name contents rest named inner formed ihInner ihRest =>
      have found : directiveAt? before (name ++ 0x5B :: (contents.render ++ 0x5D :: rest.render)) =
          some ⟨name, contents.render, 0⟩ := by
        rw [directiveAt?, if_pos (free trivial), directive?_render named inner formed]
      rw [render, scan_written found, items, List.map_cons, List.map_append, ihInner fun _ => rfl,
        ihRest fun _ => by decide]
      rfl

/-! ## Where the directives of a tree stand -/

theorem of_items (formed : tree.WellFormed) {pos : Nat} :
    ∀ i ∈ tree.items pos, IsName i.name ∧ i.contents.WellFormed := by
  induction formed generalizing pos with
  | nil => nofun
  | text _ _ _ _ ih => exact ih
  | directive named inner _ ihInner ihRest =>
      exact List.forall_mem_cons.mpr ⟨⟨named, inner⟩, fun i member =>
        (List.mem_append.mp member).elim (ihInner i) (ihRest i)⟩

theorem exists_around {pos : Nat} {i : Item} (member : i ∈ tree.items pos) :
    ∃ front behind, tree.render = front ++ (i.written ++ behind) ∧ i.start = pos + front.length := by
  induction tree generalizing pos with
  | nil => cases member
  | text chunk rest ih =>
      obtain ⟨front, behind, text, start⟩ := ih member
      refine ⟨chunk ++ front, behind, ?_, ?_⟩
      · rw [render, text, List.append_assoc]
      · rw [start, List.length_append, Nat.add_assoc]
  | directive name contents rest ihInner ihRest =>
      obtain rfl | member := List.mem_cons.mp member
      · exact ⟨[], rest.render, by simp [Item.written, render], rfl⟩
      obtain member | member := List.mem_append.mp member
      · obtain ⟨front, behind, text, start⟩ := ihInner member
        refine ⟨0x3A :: name ++ 0x5B :: front, behind ++ 0x5D :: rest.render, ?_, ?_⟩
        · simp [render, text]
        · rw [start]
          simp only [Item.inner, List.length_append, List.length_cons]
          omega
      · obtain ⟨front, behind, text, start⟩ := ihRest member
        refine ⟨0x3A :: name ++ 0x5B :: contents.render ++ 0x5D :: front, behind, ?_, ?_⟩
        · simp [render, text]
        · rw [start]
          simp only [Item.extent, Item.inner, List.length_append, List.length_cons]
          omega

theorem of_append {e : Extent} {front t : Bytes} (behind : Bytes) (start : e.start = front.length)
    (stop : e.stop = front.length + t.length) : e.of (front ++ (t ++ behind)) = t := by
  rw [Extent.of, Bytes.slice, start, stop, List.drop_left, Nat.add_sub_cancel_left, List.take_left]

/-- The stretches of a directive hold how it is written, and its contents. -/
theorem of_extent {i : Item} (member : i ∈ tree.items 0) :
    i.extent.of tree.render = i.written ∧ i.inner.of tree.render = i.contents.render := by
  obtain ⟨front, behind, text, start⟩ := exists_around member
  have contents : tree.render =
      (front ++ 0x3A :: (i.name ++ [0x5B])) ++ (i.contents.render ++ 0x5D :: behind) := by
    simp [text, Item.written, render]
  constructor
  · rw [text]
    refine of_append behind ?_ ?_
    all_goals simp only [Item.extent, Item.inner, Item.written, render, List.length_append, List.length_cons,
      List.length_nil]
    all_goals omega
  · rw [contents]
    refine of_append (0x5D :: behind) ?_ ?_
    all_goals simp only [Item.inner, List.length_append, List.length_cons, List.length_nil]
    all_goals omega

theorem ofNode_item (formed : tree.WellFormed) {i : Item} (member : i ∈ tree.items 0) :
    Directive.ofNode tree.render i.node = i.shown := by
  obtain ⟨named, inner⟩ := of_items formed i member
  have node : i.node.extent.of tree.render = 0x3A :: (i.name ++ 0x5B :: (i.contents.render ++ 0x5D :: [])) :=
    (of_extent member).1
  exact (Directive.ofNode_spelled (d := ⟨i.name, i.contents.render, 0⟩) named node (square?_render inner [])).2.2

/-! ## The line as a document -/

theorem plain_render (formed : tree.WellFormed) : ∀ b ∈ tree.render, b ≠ Bytes.lf ∧ b ≠ Bytes.cr := by
  induction formed with
  | nil => nofun
  | text _ prose _ _ ih =>
      intro b member
      exact (List.mem_append.mp member).elim (fun chunk => ne_lf (.inl (prose b chunk))) (ih b)
  | directive named _ _ ihInner ihRest =>
      intro b member
      simp only [render, List.mem_cons, List.mem_append] at member
      obtain rfl | name | rfl | inner | rfl | rest := member
      · decide
      · exact ne_lf (.inr (named.bytes b name))
      · decide
      · exact ihInner b inner
      · decide
      · exact ihRest b rest

/-- A tree starts with a letter, or with a colon and a letter. -/
theorem exists_first (formed : tree.WellFormed) (begins : tree.Begins) :
    ∃ b t, tree.render = b :: t ∧ (Bytes.isLetter b = true ∨ b = 0x3A ∧ ∃ c ∈ t.head?, Bytes.isLetter c = true) := by
  cases formed with
  | nil => cases begins
  | text =>
      obtain ⟨b, first, letter⟩ := begins
      obtain ⟨chunk, rfl⟩ := List.head?_eq_some_iff.mp first
      exact ⟨b, _, rfl, .inl letter⟩
  | directive named =>
      obtain ⟨b, first, letter⟩ := named.letter
      obtain ⟨name, rfl⟩ := List.head?_eq_some_iff.mp first
      exact ⟨0x3A, _, rfl, .inr ⟨rfl, b, rfl, letter⟩⟩

theorem beginsParagraph_render (formed : tree.WellFormed) (begins : tree.Begins) :
    Block.beginsParagraph tree.render = true := by
  have shown : ∀ b : UInt8, Bytes.isLetter b = true ∨ b = 0x3A → b < 0x80 ∧ isWhiteSpace b.toNat = false ∧
      (b ≠ Bytes.space ∧ b ≠ Bytes.tab) ∧ (b ≠ 0x60 ∧ b ≠ 0x7E) ∧ b ≠ 0x3C := Bytes.forall_byte (by decide +kernel)
  obtain ⟨b, t, text, first⟩ := exists_first formed begins
  obtain ⟨ascii, visible, indent, fence, tag⟩ := shown b (first.imp_right And.left)
  have letter : Bytes.isLetter 0x3A = false := rfl
  rw [text]
  refine Block.beginsParagraph_cons (Bytes.isBlank_cons ascii visible t) indent fence tag ?_
  -- At most one colon stands in front.
  refine eq_false_of_ne_true fun colons => ?_
  obtain ⟨u, same⟩ := List.isPrefixOf_iff_prefix.mp colons
  obtain ⟨rfl, rfl⟩ := List.cons.inj same
  obtain colon | ⟨-, c, ⟨⟩, colon⟩ := first
  · cases colon
  · cases colon

theorem nodes_render (formed : tree.WellFormed) (begins : tree.Begins) :
    (ofText tree.render).nodes = (tree.items 0).map Item.node := by
  obtain ⟨b, t, text, first⟩ := exists_first formed begins
  have header : Header.ofText? tree.render = none := by
    refine Header.ofText?_eq_none fun hyphen => ?_
    rw [text] at hyphen
    cases hyphen
    obtain letter | ⟨colon, -⟩ := first
    · cases letter
    · cases colon
  have line : tree.render.splitOn Bytes.lf = [tree.render] :=
    Bytes.splitOn_join (List.cons_ne_nil tree.render [])
      (by simpa using fun member => (plain_render formed _ member).1 rfl)
  have quiet : Block.Quiet (tree.render.splitOn Bytes.lf) := by
    rw [line]
    refine .cons ?_ ⟨nofun, nofun⟩
    rw [Line.dropReturn_eq_self fun member => (plain_render formed _ member).2 rfl]
    exact beginsParagraph_render formed begins
  have stretch := bodyNodes_quiet quiet []
  rw [ofText, header]
  exact stretch.trans (scan_render formed (fun _ => rfl) 0)

/-- A tree that is written on a line is found again: the nodes are its directives in preorder and nothing else, the
outline gives each its contents, and the stretches of both hold what was written. -/
theorem scan_recovers_tree (tree : Tree) (formed : tree.WellFormed) (begins : tree.Begins) :
    (ofText tree.render).nodes = (tree.items 0).map Item.node ∧
    (Outline.ofText tree.render).directives = (tree.items 0).map Item.shown ∧
    ∀ i ∈ tree.items 0, i.extent.of tree.render = i.written ∧ i.inner.of tree.render = i.contents.render := by
  have nodes := nodes_render formed begins
  refine ⟨nodes, ?_, fun i member => of_extent member⟩
  have directives : (Outline.ofText tree.render).directives =
      (((ofText tree.render).nodes.filter fun n => n.kind == .directive).map
        (Directive.ofNode tree.render)) := rfl
  have kinds : ((tree.items 0).map Item.node).filter (fun n => n.kind == .directive) = (tree.items 0).map Item.node :=
    List.filter_eq_self.mpr (by simp only [List.forall_mem_map]; exact fun _ _ => rfl)
  rw [directives, nodes, kinds, List.map_map]
  exact List.map_congr_left fun i member => ofNode_item formed member

/-- A directive that holds two others, one right behind the other. -/
theorem scan_recovers_tree_nested :
    let tree : Tree := .text (utf8 "a, ") (.directive (utf8 "Ask") (.text (utf8 "b ")
      (.directive (utf8 "y") .nil (.directive (utf8 "z-1") (.text (utf8 "2") .nil) .nil))) (.text (utf8 ".") .nil))
    tree.render = utf8 "a, :Ask[b :y[]:z-1[2]]." ∧ tree.WellFormed ∧ tree.Begins ∧
      (ofText tree.render).nodes = [⟨.directive, utf8 "Ask", 3, 22, 0⟩, ⟨.directive, utf8 "y", 10, 14, 0⟩,
        ⟨.directive, utf8 "z-1", 14, 21, 0⟩] ∧
      (Outline.ofText tree.render).directives = [⟨utf8 "ask", ⟨3, 22⟩, ⟨8, 21⟩⟩, ⟨utf8 "y", ⟨10, 14⟩, ⟨13, 13⟩⟩,
        ⟨utf8 "z-1", ⟨14, 21⟩, ⟨19, 20⟩⟩] := by
  intro tree
  have formed : tree.WellFormed := by
    have apart : ∀ chunk ∈ [utf8 "a, ", utf8 "b "], ∀ b ∈ chunk.getLast?,
        Bytes.isLetter b = false ∧ Bytes.isDigit b = false := by decide +kernel
    have prose : ∀ chunk ∈ [utf8 "a, ", utf8 "b ", utf8 "2", utf8 "."], ∀ b ∈ chunk, isProseByte b = true := by
      decide +kernel
    have bytes : ∀ name ∈ [utf8 "Ask", utf8 "y", utf8 "z-1"], ∀ b ∈ name, isNameByte b = true := by decide +kernel
    refine .text (by decide) (prose _ (by decide)) (fun _ => apart _ (by decide))
      (.directive ⟨⟨_, rfl, rfl⟩, bytes _ (by decide)⟩ ?_ (.text (by decide) (prose _ (by decide)) nofun .nil))
    refine .text (by decide) (prose _ (by decide)) (fun _ => apart _ (by decide))
      (.directive ⟨⟨_, rfl, rfl⟩, bytes _ (by decide)⟩ .nil ?_)
    exact .directive ⟨⟨_, rfl, rfl⟩, bytes _ (by decide)⟩ (.text (by decide) (prose _ (by decide)) nofun .nil) .nil
  have begins : tree.Begins := ⟨_, rfl, rfl⟩
  obtain ⟨nodes, directives, -⟩ := scan_recovers_tree tree formed begins
  exact ⟨rfl, formed, begins, nodes, directives⟩

end

end Tree

end Colloquy.Document.Inline
