import Colloquy.Proofs.Document.Place
import Colloquy.Proofs.Document.Fence
import Colloquy.Proofs.Expansion.Contents

/-! # Paragraphs around a replacement

The contents of a directive may lie on several lines, and what takes their place on one. All of these lines belong to
one paragraph. What decides whether the first of them begins a paragraph or continues one stands in front of the
contents, and the lines behind only move. So the paragraph starts where it has started and ends where its last line has
moved to.
-/

namespace Colloquy.Document

namespace Block

/-! ## What the first bytes of a line decide -/

section

variable {q u v : Bytes}

theorem takeWhile_front {p : UInt8 → Bool} {c : UInt8} (held : c ∈ q) (fails : p c = false) (u : Bytes) :
    (q ++ u).takeWhile p = q.takeWhile p ∧ (q ++ u).dropWhile p = q.dropWhile p ++ u ∧ c ∈ q.dropWhile p := by
  induction q with
  | nil => cases held
  | cons b q ih =>
      by_cases pass : p b = true
      · have other : c ≠ b := by
          rintro rfl
          rw [fails] at pass
          cases pass
        obtain ⟨take, drop, still⟩ := ih (List.mem_of_ne_of_mem other held)
        simp [pass, take, drop, still]
      · simpa [pass] using held

theorem isBlank_of_colon (colon : 0x3A ∈ q) (u : Bytes) : Bytes.isBlank (q ++ u) = false := by
  refine eq_false_of_ne_true fun blank => ?_
  exact (Inline.isPlain_of_isBlank blank 0x3A (List.mem_append_left _ colon)).ne (by decide) rfl

theorem openingFence?_front (colon : 0x3A ∈ q) (plain : openingFence? (q ++ u) = none)
    (ticks : 0x60 ∈ q → 0x60 ∈ u → 0x60 ∈ v) : openingFence? (q ++ v) = none := by
  cases q with
  | nil => cases colon
  | cons mark q =>
      by_cases known : (mark == 0x60 || mark == 0x7E) = true
      · have fails : (0x3A == mark) = false := by
          rw [Bool.or_eq_true, beq_iff_eq, beq_iff_eq] at known
          obtain rfl | rfl := known <;> rfl
        have run (w : Bytes) : (mark :: (q ++ w)).takeWhile (· == mark) = (mark :: q).takeWhile (· == mark) :=
          (takeWhile_front colon fails w).1
        have le : ((mark :: q).takeWhile (· == mark)).length ≤ (mark :: q).length :=
          (List.takeWhile_prefix _).length_le
        have rest (w : Bytes) : (mark :: (q ++ w)).drop ((mark :: q).takeWhile (· == mark)).length =
            (mark :: q).drop ((mark :: q).takeWhile (· == mark)).length ++ w := by
          rw [← List.cons_append, List.drop_append_of_le_length le]
        simp only [List.cons_append, openingFence?, known, if_true, run, rest] at plain ⊢
        refine if_pos ?_
        split at plain
        · rename_i unclosed
          simp only [Bool.or_eq_true, Bool.and_eq_true, decide_eq_true_eq, List.contains_iff_mem, List.mem_append,
            beq_iff_eq] at unclosed ⊢
          obtain short | ⟨tick, held⟩ := unclosed
          · exact .inl short
          · exact .inr ⟨tick, held.imp_right (ticks (tick ▸ List.mem_cons_self))⟩
        · cases plain
      · simp only [List.cons_append, openingFence?, known, Bool.false_eq_true, if_false]

theorem breaks_front (colon : 0x3A ∈ q) (long : 3 ≤ q.length) (whole : breaks (q ++ u) = false)
    (ticks : 0x60 ∈ q → 0x60 ∈ u → 0x60 ∈ v) : breaks (q ++ v) = false := by
  have spaces (w : Bytes) := takeWhile_front (p := (· == Bytes.space)) colon (by decide) w
  have split := List.takeWhile_append_dropWhile (p := (· == Bytes.space)) (l := q)
  have behind (w : Bytes) : (q ++ w).drop (q.takeWhile (· == Bytes.space)).length =
      q.dropWhile (· == Bytes.space) ++ w := by
    have passed : (q.takeWhile (· == Bytes.space) ++ (q.dropWhile (· == Bytes.space) ++ w)).drop
        (q.takeWhile (· == Bytes.space)).length = q.dropWhile (· == Bytes.space) ++ w := List.drop_left
    rwa [← List.append_assoc, split] at passed
  have marks (w : Bytes) : Bytes.startsWith (q ++ w) (utf8 ":::") = Bytes.startsWith q (utf8 ":::") := by
    obtain ⟨a, b, c, q, rfl⟩ : ∃ a b c q', q = a :: b :: c :: q' := by
      match q, long with
      | a :: b :: c :: q, _ => exact ⟨a, b, c, q, rfl⟩
    rfl
  simp only [breaks, (spaces _).1, behind, marks, Bool.or_eq_false_iff, Bool.and_eq_false_imp, decide_eq_true_eq,
    Option.isSome_eq_false_iff, Option.isNone_iff_eq_none] at whole ⊢
  refine ⟨fun near => ?_, whole.2⟩
  refine openingFence?_front (spaces []).2.2 (whole.1 near) fun tick => ticks ?_
  exact (List.dropWhile_sublist _).subset tick

theorem indentFrom_front {b : UInt8} (held : b ∈ q) (other : Bytes.isBlankByte b = false) (column : Nat) (u : Bytes) :
    Line.indentFrom column (q ++ u) = Line.indentFrom column q := by
  induction q generalizing column with
  | nil => cases held
  | cons c q ih =>
      have further (blank : Bytes.isBlankByte c = true) (column : Nat) :
          Line.indentFrom column (q ++ u) = Line.indentFrom column q := by
        refine ih (List.mem_of_ne_of_mem ?_ held) column
        rintro rfl
        rw [other] at blank
        cases blank
      rw [List.cons_append, Line.indentFrom, Line.indentFrom]
      by_cases space : (c == Bytes.space) = true
      · rw [if_pos space, if_pos space, further (by simp [Bytes.isBlankByte, space])]
      by_cases tab : (c == Bytes.tab) = true
      · rw [if_neg space, if_neg space, if_pos tab, if_pos tab, further (by simp [Bytes.isBlankByte, tab])]
      · rw [if_neg space, if_neg space, if_neg tab, if_neg tab]

theorem openingTag?_front (colon : 0x3A ∈ q) (long : 2 ≤ q.length) (u : Bytes) :
    openingTag? (q ++ u) = openingTag? q := by
  obtain ⟨a, b, q, rfl⟩ : ∃ a b q', q = a :: b :: q' := by
    match q, long with
    | a :: b :: q, _ => exact ⟨a, b, q, rfl⟩
  by_cases angle : a = 0x3C
  · subst angle
    have colon : 0x3A ∈ b :: q := List.mem_of_ne_of_mem (by decide) colon
    obtain ⟨tag, behind, held⟩ := takeWhile_front (p := isTagByte) colon (by decide) u
    have head : ((b :: q).dropWhile isTagByte ++ u).head? = ((b :: q).dropWhile isTagByte).head? := by
      rw [List.head?_append, List.head?_eq_some_head (List.ne_nil_of_mem held)]
      rfl
    simp only [List.cons_append] at tag behind ⊢
    simp only [openingTag?, tag, behind, head]
  · have plain (w : Bytes) : openingTag? (a :: w) = none := by
      unfold openingTag?
      split
      · rename_i known
        exact absurd (List.cons.inj known).1 angle
      · rfl
    rw [List.cons_append, plain, plain]

theorem beginsParagraph_front (colon : 0x3A ∈ q) (long : 3 ≤ q.length) (begins : beginsParagraph (q ++ u) = true)
    (ticks : 0x60 ∈ q → 0x60 ∈ u → 0x60 ∈ v) : beginsParagraph (q ++ v) = true := by
  have indent (w : Bytes) : Line.indent (q ++ w) = Line.indent q := indentFrom_front colon (by decide) 0 w
  have tag (w : Bytes) : openingTag? (q ++ w) = openingTag? q := openingTag?_front colon (by omega) w
  simp only [beginsParagraph, isBlank_of_colon colon, indent, tag, Bool.and_eq_true, Bool.not_eq_true'] at begins ⊢
  exact ⟨⟨⟨trivial, breaks_front colon long begins.1.1.2 ticks⟩, begins.1.2⟩, begins.2⟩

end

/-! ## When a paragraph is open behind a line -/

section

variable {text : Bytes} {st : State} {l : Line} {ls : List Line} {start stop : Nat}

theorem stop_of_openLine (opened : (openLine text st l).1.mode = .paragraph start stop) : stop = l.stop := by
  have opens := opens_openLine text st l
  generalize (openLine text st l).1 = st', (openLine text st l).2 = out at opens opened
  cases opens <;> cases opened <;> rfl

theorem openLine_idle {stack : List Opening} :
    (openLine text ⟨.idle, stack⟩ l).1.mode = .paragraph start stop ↔
      stop = l.stop ∧ start = l.start ∧ beginsParagraph l.content = true := by
  constructor
  · intro opened
    obtain ⟨-, -, ⟨_, known⟩ | begun⟩ := leavesOpen_openLine opened
    · cases known
    · exact ⟨stop_of_openLine opened, begun⟩
  · rintro ⟨rfl, rfl, begins⟩
    simp only [beginsParagraph, Bool.and_eq_true, Bool.not_eq_true', decide_eq_true_eq,
      Option.isNone_iff_eq_none] at begins
    obtain ⟨⟨⟨filled, whole⟩, indent⟩, tag⟩ := begins
    obtain ⟨fence, colons⟩ := breaks_eq_false_iff.mp whole
    simp [openLine, filled, fence, colons, tag, Nat.not_le.mpr indent]

theorem openLine_paragraph {stack : List Opening} {start' before : Nat} :
    (openLine text ⟨.paragraph start' before, stack⟩ l).1.mode = .paragraph start stop ↔
      stop = l.stop ∧ start = start' ∧ l.content.isBlank = false ∧ breaks l.content = false := by
  have continues (filled : l.content.isBlank = false) (whole : breaks l.content = false) :
      (openLine text ⟨.paragraph start' before, stack⟩ l).1.mode = .paragraph start' l.stop := by
    obtain ⟨fence, colons⟩ := breaks_eq_false_iff.mp whole
    simp [openLine, filled, fence, colons]
  constructor
  · intro opened
    have still := leavesOpen_openLine opened
    obtain ⟨rfl, rfl⟩ := Mode.paragraph.inj (opened.symm.trans (continues still.filled still.whole))
    exact ⟨rfl, rfl, still.filled, still.whole⟩
  · rintro ⟨rfl, rfl, filled, whole⟩
    exact continues filled whole

/-- A line behind which a paragraph is open is exchanged for another that begins one too, or continues it. -/
theorem step_exchange {text' : Bytes} {l' : Line} (opened : (step text st l).1.mode = .paragraph start stop)
    (same : l'.start = l.start) (filled : l'.content.isBlank = false)
    (whole : breaks l.content = false → breaks l'.content = false)
    (begins : beginsParagraph l.content = true → beginsParagraph l'.content = true) :
    (step text' st l').1.mode = .paragraph start l'.stop := by
  obtain ⟨mode, stack⟩ := st
  cases mode with
  | idle =>
      obtain ⟨-, rfl, begun⟩ := openLine_idle.mp opened
      exact openLine_idle.mpr ⟨rfl, same.symm, begins begun⟩
  | paragraph start' before =>
      obtain ⟨-, rfl, -, still⟩ := openLine_paragraph.mp opened
      exact openLine_paragraph.mpr ⟨rfl, rfl, filled, whole still⟩
  | fenced mark length start' =>
      simp only [step] at opened
      split at opened <;> cases opened
  | html tag start' =>
      simp only [step] at opened
      split at opened
      · cases opened
      · split at opened <;> cases opened
  | indented start' before =>
      simp only [step] at opened ⊢
      split at opened
      · cases opened
      split at opened
      · cases opened
      obtain ⟨-, rfl, begun⟩ := openLine_idle.mp opened
      have begun' := begins begun
      have near : ¬ Line.indent l'.content ≥ 4 := by
        simp only [beginsParagraph, Bool.and_eq_true, decide_eq_true_eq] at begun'
        omega
      rw [if_neg (by rw [filled]; decide), if_neg near]
      exact openLine_idle.mpr ⟨rfl, same.symm, begun'⟩

/-! ## Lines that continue a paragraph -/

theorem after_append (text : Bytes) (st : State) (ls more : List Line) :
    after text st (ls ++ more) = after text (after text st ls) more := List.foldl_append

/-- Lines behind the start of an open paragraph have continued it. -/
theorem continued_of_after (opened : (after text st ls).mode = .paragraph start stop)
    (behind : ∀ l ∈ ls, start < l.start) : (∃ stop, st.mode = .paragraph start stop) ∧
      ∀ l ∈ ls, l.content.isBlank = false ∧ breaks l.content = false := by
  induction ls generalizing st with
  | nil => exact ⟨⟨stop, opened⟩, List.forall_mem_nil _⟩
  | cons l ls ih =>
      obtain ⟨here, later⟩ := List.forall_mem_cons.mp behind
      obtain ⟨⟨_, known⟩, others⟩ := ih opened later
      obtain ⟨filled, whole, still | ⟨rfl, -⟩⟩ := leavesOpen_step known
      · exact ⟨still, List.forall_mem_cons.mpr ⟨⟨filled, whole⟩, others⟩⟩
      · omega

theorem step_paragraph {before : Nat} (opened : st.mode = .paragraph start before) :
    (step text st l).1.mode = .paragraph start stop ↔
      stop = l.stop ∧ l.content.isBlank = false ∧ breaks l.content = false := by
  obtain ⟨mode, stack⟩ := st
  obtain rfl : mode = .paragraph start before := opened
  exact openLine_paragraph.trans (by simp)

/-- They keep it open up to the end of the last one. -/
theorem after_continued (opened : st.mode = .paragraph start stop)
    (continued : ∀ l ∈ ls, l.content.isBlank = false ∧ breaks l.content = false) :
    (after text st ls).mode = .paragraph start ((ls.getLast?.map Line.stop).getD stop) := by
  induction ls generalizing st stop with
  | nil => exact opened
  | cons l ls ih =>
      obtain ⟨⟨filled, whole⟩, others⟩ := List.forall_mem_cons.mp continued
      have kept : (step text st l).1.mode = .paragraph start l.stop :=
        (step_paragraph opened).mpr ⟨rfl, filled, whole⟩
      have rest := ih kept others
      rw [List.getLast?_cons]
      cases last : ls.getLast? <;> rw [last] at rest <;> exact rest

end

end Block

/-! ## Lines through contents -/

namespace Line

variable {c n q z tail : Bytes}

theorem ofText_zero (start : Nat) (t : Bytes) : ofText start t = (ofText 0 t).map (Line.move start) := by
  rw [← ofText_move, Nat.zero_add]

/-- The line that a text begins with, when it is known where it ends. -/
theorem ofText_first (free : Bytes.lf ∉ z) (some : z ≠ []) (ends : ∀ b ∈ tail.head?, b = Bytes.lf) (start : Nat) :
    ofText start (z ++ tail) = ⟨start, dropReturn z, start + z.length + (tail.take 1).length⟩ ::
      ofText (start + z.length + (tail.take 1).length) (tail.drop 1) := by
  cases tail with
  | nil =>
      rw [List.append_nil, ofText_last free, if_neg (by simpa using some)]
      rfl
  | cons b tail =>
      obtain rfl := ends b rfl
      exact ofText_line free start tail

/-- The lines through a text end with the one that goes on behind it. -/
theorem ofText_through (free : Bytes.lf ∉ z) (some : z ≠ []) (ends : ∀ b ∈ tail.head?, b = Bytes.lf) (start : Nat)
    (c : Bytes) : ∃ front l, ofText start (c ++ (z ++ tail)) = front ++ l ::
        (ofText 0 (tail.drop 1)).map (Line.move (start + c.length + z.length + (tail.take 1).length)) ∧
      l.start ≤ start + c.length ∧ l.stop = start + c.length + (dropReturn z).length := by
  induction c using Bytes.lineInduction generalizing start with
  | last c line =>
      have whole : Bytes.lf ∉ c ++ z := by simp [line, free]
      refine ⟨[], ⟨start, dropReturn (c ++ z), start + (c ++ z).length + (tail.take 1).length⟩, ?_, ?_, ?_⟩
      · rw [← List.append_assoc, ofText_first whole (by simp [some]) ends, List.length_append, ← Nat.add_assoc,
          ← ofText_zero]
        rfl
      · exact Nat.le_add_right _ _
      · simp only [stop, dropReturn_append _ some, List.length_append, ← Nat.add_assoc]
  | more line rest lineFree ih =>
      obtain ⟨front, l, lines, before, stop⟩ := ih (start + line.length + 1)
      have length : start + (line ++ Bytes.lf :: rest).length = start + line.length + 1 + rest.length := by
        rw [List.length_append, List.length_cons]
        omega
      refine ⟨⟨start, dropReturn line, start + line.length + 1⟩ :: front, l, ?_, ?_, ?_⟩
      · rw [List.append_assoc, List.cons_append, ofText_line lineFree, lines, length]
        rfl
      · rw [length]
        exact before
      · rw [length]
        exact stop

theorem dropReturn_subset (t : Bytes) : dropReturn t ⊆ t := by
  unfold dropReturn
  split
  · exact (List.dropLast_sublist t).subset
  · exact List.Subset.refl _

/-- The line on which a text goes on is the only one that a part of it without line feeds lies on. -/
theorem ofText_from (free : Bytes.lf ∉ q ++ [0x5B]) (zFree : Bytes.lf ∉ z) (some : z ≠ [])
    (ends : ∀ b ∈ tail.head?, b = Bytes.lf) (start : Nat) (c : Bytes) :
    ∃ u next ls, ofText start (q ++ [0x5B] ++ (c ++ (z ++ tail))) = ⟨start, q ++ [0x5B] ++ u, next⟩ :: ls ∧
      u ⊆ c ++ dropReturn z ∧ start + (q ++ [0x5B]).length ≤ next := by
  by_cases more : Bytes.lf ∈ c
  · obtain ⟨line, rest, rfl, lineFree⟩ := List.eq_append_cons_of_mem more
    have first : Bytes.lf ∉ q ++ [0x5B] ++ line := fun member => (List.mem_append.mp member).elim free lineFree
    have content : dropReturn (q ++ [0x5B] ++ line) = q ++ [0x5B] ++ dropReturn line := by
      rw [List.append_assoc, dropReturn_append q (by simp), List.singleton_append, dropReturn_cons (by decide)]
      simp
    have parts : q ++ [0x5B] ++ (line ++ Bytes.lf :: rest ++ (z ++ tail)) =
        q ++ [0x5B] ++ line ++ Bytes.lf :: (rest ++ (z ++ tail)) := by simp
    have lines := ofText_line first start (rest ++ (z ++ tail))
    rw [content, ← parts] at lines
    refine ⟨dropReturn line, _, _, lines, fun b member => ?_, ?_⟩
    · simp [dropReturn_subset line member]
    · simp only [List.length_append]
      omega
  · have first : Bytes.lf ∉ q ++ [0x5B] ++ (c ++ z) := by
      intro member
      obtain member | member := List.mem_append.mp member
      · exact free member
      · exact (List.mem_append.mp member).elim more zFree
    have content : dropReturn (q ++ [0x5B] ++ (c ++ z)) = q ++ [0x5B] ++ (c ++ dropReturn z) := by
      rw [dropReturn_append _ (by simp [some]), dropReturn_append _ some]
    have parts : q ++ [0x5B] ++ (c ++ (z ++ tail)) = q ++ [0x5B] ++ (c ++ z) ++ tail := by simp
    have lines := ofText_first first (by simp) ends start
    rw [content, ← parts] at lines
    refine ⟨c ++ dropReturn z, _, _, lines, List.Subset.refl _, ?_⟩
    simp only [List.length_append]
    omega

end Line

namespace Block

/-- Where a paragraph ends, the lines in front of its end reach that far. -/
theorem stop_le_of_after {text : Bytes} {start stop lo : Nat} {read left : List Line} {l : Line} {hi : Nat}
    (opened : (after text .start read).mode = .paragraph start stop) (fill : Line.Fill hi lo (read ++ left))
    (member : l ∈ left) : stop ≤ l.start := by
  obtain ⟨mid, front, behind⟩ := fill.append
  have within : (after text .start read).mode.Within 0 mid := within_after trivial (Nat.zero_le _) front
  rw [opened] at within
  exact Nat.le_trans within.2.2 (behind.starts l member).1

/-- The state behind some lines does not depend on the text that they are lines of. -/
theorem after_text (text text' : Bytes) {lo hi : Nat} {ls : List Line} (fill : Line.Fill hi lo ls) :
    after text' .start ls = after text .start ls := by
  have nothing : Agrees (fun _ => false) id text text' 0 hi := fun _ _ _ _ _ => by simp [pick]
  have nowhere : State.start.mode.Within 0 lo := trivial
  have read := (after_relocate nothing fill (Nat.zero_le _) nowhere fun _ _ => rfl).1
  simpa only [State.relocate_id, Line.relocate_id, List.map_id] using read

section

variable {front q c n z tail : Bytes} {lo start stop : Nat} {text : Bytes}

/-- A paragraph that reaches over the start of a line reaches over the line. -/
theorem EndsParagraph.over {ls ls' : List Line} {l : Line} {hi : Nat} (fill : Line.Fill hi lo (ls ++ l :: ls'))
    (ended : EndsParagraph text .start (ls ++ l :: ls') start stop) (further : l.start < stop) :
    ∃ more left, ls' = more ++ left ∧ (after text .start (ls ++ l :: more)).mode = .paragraph start stop ∧
      ∀ l' ∈ left.head?, ∀ longer,
        (step text (after text .start (ls ++ l :: more)) l').1.mode ≠ .paragraph start longer := by
  obtain ⟨read, left, split, opened, ended⟩ := ended
  have absent : l ∉ left := fun member => by
    have le := stop_le_of_after opened (split ▸ fill) member
    omega
  obtain ⟨gap, -, same⟩ | ⟨gap, rfl, behind⟩ := List.append_eq_append_iff.mp split.symm
  · exact absurd (same ▸ List.mem_append_right _ List.mem_cons_self) absent
  · cases gap with
    | nil =>
        obtain rfl : left = l :: ls' := behind.symm
        exact absurd List.mem_cons_self absent
    | cons l' more =>
        obtain ⟨rfl, rfl⟩ := List.cons.inj behind
        exact ⟨more, left, rfl, opened, ended⟩

/-- A list that begins with `first` and goes on behind `l` holds more than `first` up to there. -/
theorem exists_others {α : Type} {first l : α} {xs before more left : List α}
    (same : first :: xs = before ++ l :: (more ++ left)) :
    ∃ others, before ++ l :: more = first :: others ∧ others ⊆ xs ∧ more ⊆ others := by
  cases before with
  | nil =>
      obtain ⟨rfl, rfl⟩ := List.cons.inj same
      exact ⟨more, rfl, List.subset_append_left _ _, List.Subset.refl _⟩
  | cons y before =>
      obtain ⟨rfl, rfl⟩ := List.cons.inj same
      refine ⟨before ++ l :: more, rfl, fun x member => ?_, fun x member => by simp [member]⟩
      change x ∈ before ++ (l :: more ++ left)
      rw [← List.append_assoc]
      exact List.mem_append_left _ member

/-- The line with which a paragraph is open lies behind its start. -/
theorem start_le_of_step {read behind : List Line} {l : Line} {hi e : Nat}
    (fill : Line.Fill hi lo (read ++ l :: behind))
    (opened : (step text (after text .start read) l).1.mode = .paragraph start e) : start ≤ l.start := by
  obtain ⟨mid, inFront, through⟩ := fill.append
  obtain ⟨_, before⟩ | ⟨rfl, -⟩ := (leavesOpen_step opened).origin
  · have within : (after text .start read).mode.Within 0 mid := within_after trivial (Nat.zero_le _) inFront
    rw [before] at within
    exact Nat.le_trans (Nat.le_trans within.2.1 within.2.2) (through.starts l List.mem_cons_self).1
  · exact Nat.le_refl _

/-- The last of some lines behind `l` ends where it has moved, from wherever `l` ends. -/
theorem stop_of_moved {first l : Line} {before others more : List Line} {p p' a b stop' : Nat}
    (same : before ++ l :: more.map (Line.move p) = first :: others) (grown : stop' + a = l.stop + b)
    (moved : p' + a = p + b) :
    ((more.map (Line.move p')).getLast?.map Line.stop).getD stop' + a =
      (others.getLast?.map Line.stop).getD first.stop + b := by
  have last := congrArg List.getLast? same
  rw [List.getLast?_append_of_ne_nil _ (List.cons_ne_nil _ _), List.getLast?_cons, List.getLast?_cons,
    List.getLast?_map] at last
  rw [Option.getD_map, ← Option.some.inj last, List.getLast?_map]
  cases more.getLast? with
  | none => exact grown
  | some y =>
      simp only [Option.map_some, Option.getD_some, Line.stop, Line.move]
      omega

/-- Where a paragraph goes on over some lines, one line may be exchanged for the first of them, and the others behind
`l` moved up to it, when the new line begins or continues a paragraph as the first one does. -/
theorem EndsParagraph.exchange_lines (text' : Bytes) {front ls before moving : List Line} {first first' l : Line}
    {hi p p' a b : Nat} (fill : Line.Fill hi lo (front ++ first :: ls))
    (lines : first :: ls = before ++ l :: moving.map (Line.move p))
    (ended : EndsParagraph text .start (front ++ first :: ls) start stop) (early : start < first.next)
    (further : l.start < stop) (place : first'.start = first.start) (filled : first'.content.isBlank = false)
    (whole : start ≤ first.start → breaks first.content = false → breaks first'.content = false)
    (begins : start ≤ first.start → beginsParagraph first.content = true → beginsParagraph first'.content = true)
    (grown : first'.stop + a = l.stop + b) (moved : p' + a = p + b) :
    ∃ stop', stop' + a = stop + b ∧
      EndsParagraph text' .start (front ++ first' :: moving.map (Line.move p')) start stop' := by
  obtain ⟨mid, inFront, through⟩ := fill.append
  have starts := through.tail.starts
  have parts : front ++ first :: ls = (front ++ before) ++ l :: moving.map (Line.move p) := by
    rw [lines, List.append_assoc]
  obtain ⟨_, _, split, opened, ended⟩ := EndsParagraph.over (parts ▸ fill) (parts ▸ ended) further
  obtain ⟨more, left, rfl, rfl, rfl⟩ := List.map_eq_append_iff.mp split
  -- The lines that the paragraph goes on over are the first one and others behind it.
  rw [List.map_append] at lines
  obtain ⟨others, read, less, among⟩ := exists_others lines
  have state : after text .start (front ++ before ++ l :: more.map (Line.move p)) =
      after text (step text (after text .start front) first).1 others := by
    rw [List.append_assoc, read, after_append]
    rfl
  rw [state] at opened ended
  obtain ⟨⟨_, known⟩, continued⟩ :=
    continued_of_after opened fun x member => Nat.lt_of_lt_of_le early (starts x (less member)).1
  have begun : (step text (after text .start front) first).1.mode = .paragraph start first.stop :=
    step_exchange known rfl (leavesOpen_step known).filled id id
  have le : start ≤ first.start := start_le_of_step fill known
  -- The paragraph ends with the last of these lines, and so it does when they have moved.
  obtain ⟨-, stops⟩ := Mode.paragraph.inj ((after_continued begun continued).symm.trans opened)
  have again : (step text' (after text .start front) first').1.mode = .paragraph start first'.stop :=
    step_exchange known place filled (whole le) (begins le)
  have still : ∀ x ∈ more.map (Line.move p'), x.content.isBlank = false ∧ breaks x.content = false := by
    intro x member
    obtain ⟨y, held, rfl⟩ := List.mem_map.mp member
    exact continued (y.move p) (among (List.mem_map_of_mem held))
  have opened' : (after text' (step text' (after text .start front) first').1 (more.map (Line.move p'))).mode = _ :=
    after_continued again still
  have state' : after text' .start (front ++ first' :: more.map (Line.move p')) =
      after text' (step text' (after text .start front) first').1 (more.map (Line.move p')) := by
    rw [after_append, after_text text text' inFront]
    rfl
  rw [← state'] at opened'
  refine ⟨_, ?_, front ++ first' :: more.map (Line.move p'), left.map (Line.move p'), ?_, opened', ?_⟩
  · rw [← stops]
    exact stop_of_moved read grown moved
  · simp
  · intro x member longer goes
    obtain ⟨y, held, rfl⟩ := Option.map_eq_some_iff.mp (List.head?_map ▸ member)
    obtain ⟨-, filled, whole⟩ := (step_paragraph opened').mp goes
    refine ended (y.move p) ?_ _ ((step_paragraph opened).mpr ⟨rfl, filled, whole⟩)
    rw [List.head?_map, held]
    rfl

theorem EndsParagraph.exchange (text' : Bytes) (whole : front.IsLines) (free : Bytes.lf ∉ q ++ [0x5B])
    (colon : 0x3A ∈ q) (long : 2 ≤ q.length) (nFree : Bytes.lf ∉ n) (zFree : Bytes.lf ∉ z) (some : z ≠ [])
    (ends : ∀ b ∈ tail.head?, b = Bytes.lf) (ticks : start ≤ lo + front.length → 0x60 ∈ q → 0x60 ∉ c)
    (ended : EndsParagraph text .start (Line.ofText lo (front ++ (q ++ [0x5B] ++ (c ++ (z ++ tail))))) start stop)
    (early : start < lo + front.length + (q ++ [0x5B]).length)
    (late : lo + front.length + (q ++ [0x5B]).length + c.length < stop) :
    ∃ stop', stop' + c.length = stop + n.length ∧
      EndsParagraph text' .start (Line.ofText lo (front ++ (q ++ [0x5B] ++ (n ++ (z ++ tail))))) start stop' := by
  have fill := Line.fill_ofText lo (front ++ (q ++ [0x5B] ++ (c ++ (z ++ tail))))
  obtain ⟨u, next, ls, first, inside, further⟩ := Line.ofText_from free zFree some ends (lo + front.length) c
  obtain ⟨before, l, through, startL, stopL⟩ :=
    Line.ofText_through zFree some ends (lo + front.length) (q ++ [0x5B] ++ c)
  rw [List.append_assoc (q ++ [0x5B]), first] at through
  rw [Line.ofText_append whole, first] at ended fill
  have line : Bytes.lf ∉ q ++ [0x5B] ++ (n ++ z) := by
    intro member
    obtain member | member := List.mem_append.mp member
    · exact free member
    · exact (List.mem_append.mp member).elim nFree zFree
  have first' := Line.ofText_first line (by simp) ends (lo + front.length)
  have content : Line.dropReturn (q ++ [0x5B] ++ (n ++ z)) = q ++ [0x5B] ++ (n ++ Line.dropReturn z) := by
    rw [Line.dropReturn_append _ (by simp [some]), Line.dropReturn_append _ some]
  have parts : q ++ [0x5B] ++ (n ++ (z ++ tail)) = q ++ [0x5B] ++ (n ++ z) ++ tail := by simp
  rw [content, Line.ofText_zero _ (tail.drop 1), ← parts] at first'
  rw [Line.ofText_append whole, first']
  have colon : 0x3A ∈ q ++ [0x5B] := List.mem_append_left _ colon
  have long : 3 ≤ (q ++ [0x5B]).length := by
    rw [List.length_append]
    exact Nat.succ_le_succ long
  have ticks (le : start ≤ lo + front.length) : 0x60 ∈ q ++ [0x5B] → 0x60 ∈ u → 0x60 ∈ n ++ Line.dropReturn z := by
    intro tick held
    have tick : 0x60 ∈ q := (List.mem_append.mp tick).resolve_right (by decide)
    exact List.mem_append_right _ ((List.mem_append.mp (inside held)).resolve_left (ticks le tick))
  refine EndsParagraph.exchange_lines text' (a := c.length) (b := n.length) fill through ended ?_ ?_ rfl
    (isBlank_of_colon colon _) (fun le still => breaks_front colon long still (ticks le))
    (fun le begins => beginsParagraph_front colon long begins (ticks le)) ?_ ?_
  · exact Nat.lt_of_lt_of_le early further
  · rw [List.length_append] at startL
    omega
  · rw [stopL]
    simp only [Line.stop, List.length_append]
    omega
  · simp only [List.length_append]
    omega

end

end Block

end Colloquy.Document
