import Colloquy.Proofs.Text.Bytes
import Colloquy.Proofs.Text.LineIndex
import Colloquy.Proofs.Text.Width
import Colloquy.Report.Pretty
import Mathlib.Data.List.DropRight
import Mathlib.Data.List.Infix

/-! # The line under a diagnostic

Under its heading a diagnostic shows the line that its span starts in, and below that line an underline. What stands in
front of the span is measured as it is printed, with its tabs spread to four spaces, and what the span covers is measured
as it is written. Both come to the same as long as there is no tab, and with a tab the underline is too short.
-/

namespace Colloquy

open Bytes

/-! ## The line of an offset -/

/-- The part of its line that stands in front of an offset. -/
def lineBefore (t : Bytes) (n : Nat) : Bytes := (t.take n).rtakeWhile (· != lf)

theorem rtakeWhile_behind (front back : Bytes) :
    (front ++ lf :: back).rtakeWhile (· != lf) = back.rtakeWhile (· != lf) := by
  rw [List.rtakeWhile, List.rtakeWhile, List.reverse_append, List.reverse_cons, List.append_assoc,
    List.takeWhile_append]
  split
  · rename_i all
    rw [List.singleton_append, List.takeWhile_cons_of_neg (by simp), List.append_nil]
    exact congrArg List.reverse ((List.takeWhile_prefix _).eq_of_length all).symm
  · rfl

theorem rtakeWhile_line {line : Bytes} (one : lf ∉ line) : line.rtakeWhile (· != lf) = line := by
  rw [List.rtakeWhile_eq_self_iff]
  intro b member
  simpa using fun same : b = lf => one (same ▸ member)

theorem not_mem_lineBefore (t : Bytes) (n : Nat) : lf ∉ lineBefore t n := by
  intro member
  simpa using List.mem_rtakeWhile_imp member

namespace LineIndex

/-- The line of an offset: how many line feeds stand in front of it, where it starts and where it ends. -/
theorem line_at (t : Bytes) {n : Nat} (inside : n ≤ t.length) :
    ∃ start : Nat, (ofText t).starts[(t.take n).count lf]? = some start ∧ start + (lineBefore t n).length = n ∧
      (∀ s, (ofText t).starts[(t.take n).count lf + 1]? = some s → n < s) ∧
      (ofText t).lineEnd ((t.take n).count lf) = n + (Position.lineOf (t.drop n)).length := by
  induction t using lineInduction generalizing n with
  | last t one =>
      have front : lf ∉ t.take n := fun member => one (List.mem_of_mem_take member)
      have behind : lf ∉ t.drop n := fun member => one (List.mem_of_mem_drop member)
      rw [lineBefore, rtakeWhile_line front, List.count_eq_zero_of_not_mem front, Position.lineOf,
        takeWhile_of_not_mem behind]
      refine ⟨0, by simp [starts_last one], ?_, by simp [starts_last one], ?_⟩
      · rw [List.length_take_of_le inside, Nat.zero_add]
      · simp [lineEnd, starts_last one]
        omega
  | more line rest one ih =>
      by_cases first : n ≤ line.length
      · have front : lf ∉ line.take n := fun member => one (List.mem_of_mem_take member)
        have behind : lf ∉ line.drop n := fun member => one (List.mem_of_mem_drop member)
        rw [lineBefore, List.take_append_of_le_length first, List.drop_append_of_le_length first, rtakeWhile_line front,
          List.count_eq_zero_of_not_mem front, Position.lineOf, takeWhile_mark behind]
        have second : (ofText (line ++ lf :: rest)).starts[1]? = some (line.length + 1) := by
          simp [starts_behind_line one, show (ofText rest).starts[0]? = some 0 from rfl]
        refine ⟨0, by simp [starts_behind_line one], ?_, ?_, ?_⟩
        · rw [List.length_take_of_le first, Nat.zero_add]
        · intro s here
          rw [second] at here
          cases here
          omega
        · rw [lineEnd, second]
          simp only [Nat.add_sub_cancel, List.length_drop]
          omega
      · obtain ⟨m, rfl⟩ := Nat.exists_eq_add_of_le (Nat.succ_le_of_lt (Nat.not_le.mp first))
        rw [List.length_append, List.length_cons] at inside
        obtain ⟨start, here, before, next, stop⟩ := ih (n := m) (by omega)
        have front : (line ++ lf :: rest).take (line.length.succ + m) = line ++ lf :: rest.take m := by
          rw [Nat.succ_eq_add_one, Nat.add_assoc, List.take_length_add_append, Nat.add_comm 1, List.take_succ_cons]
        have number : (line ++ lf :: rest.take m).count lf = (rest.take m).count lf + 1 := by
          rw [List.count_append, List.count_eq_zero_of_not_mem one, List.count_cons_self, Nat.zero_add]
        rw [lineBefore, front, number, rtakeWhile_behind, Nat.succ_eq_add_one, drop_behind_line]
        refine ⟨line.length + 1 + start, ?_, ?_, ?_, ?_⟩
        · simp [starts_behind_line one, here]
        · rw [lineBefore] at before
          omega
        · intro s behind
          simp only [starts_behind_line one, List.getElem?_cons_succ, List.getElem?_map,
            Option.map_eq_some_iff] at behind
          obtain ⟨s', own, rfl⟩ := behind
          have follows := next s' own
          omega
        · rw [lineEnd_behind_line one, stop]
          omega

theorem lineOf_count (t : Bytes) {n : Nat} (inside : n ≤ t.length) : (ofText t).lineOf n = (t.take n).count lf := by
  obtain ⟨start, here, before, next, -⟩ := line_at t inside
  exact lineOf_eq (starts_sorted t) here (by omega) next

theorem lineStart_lineOf (t : Bytes) {n : Nat} (inside : n ≤ t.length) :
    (ofText t).lineStart ((ofText t).lineOf n) + (lineBefore t n).length = n := by
  obtain ⟨start, here, before, -, -⟩ := line_at t inside
  rw [lineOf_count t inside, lineStart_natCast, here]
  exact before

theorem lineEnd_lineOf (t : Bytes) {n : Nat} (inside : n ≤ t.length) :
    (ofText t).lineEnd ((ofText t).lineOf n) = n + (Position.lineOf (t.drop n)).length := by
  obtain ⟨start, here, before, -, stop⟩ := line_at t inside
  rw [lineOf_count t inside, stop]

end LineIndex

namespace Report

/-! ## Tabs -/

variable {t : Bytes}

theorem spreadTabs_tab (t : Bytes) : spreadTabs (tab :: t) = List.replicate 4 space ++ spreadTabs t := rfl

theorem spreadTabs_cons {b : UInt8} (other : b ≠ tab) (t : Bytes) : spreadTabs (b :: t) = b :: spreadTabs t := by
  rw [spreadTabs, replaceAll, replaceFrom, if_neg]
  · rfl
  · simpa using other.symm

theorem spreadTabs_append (t u : Bytes) : spreadTabs (t ++ u) = spreadTabs t ++ spreadTabs u := by
  induction t with
  | nil => rfl
  | cons b t ih =>
      by_cases own : b = tab
      · rw [own, List.cons_append, spreadTabs_tab, spreadTabs_tab, ih, List.append_assoc]
      · rw [List.cons_append, spreadTabs_cons own, spreadTabs_cons own, ih, List.cons_append]

theorem spreadTabs_of_not_mem (free : tab ∉ t) : spreadTabs t = t := by
  induction t with
  | nil => rfl
  | cons b t ih =>
      obtain ⟨own, others⟩ := List.ne_and_not_mem_of_not_mem_cons free
      rw [spreadTabs_cons (Ne.symm own), ih others]

theorem exists_spaces (member : tab ∈ t) : ∃ front back, spreadTabs t = front ++ (List.replicate 4 space ++ back) := by
  obtain ⟨front, back, rfl⟩ := List.append_of_mem member
  exact ⟨spreadTabs front, spreadTabs back, by rw [spreadTabs_append, spreadTabs_tab]⟩

theorem length_le_spreadTabs (t : Bytes) : t.length ≤ (spreadTabs t).length := by
  induction t with
  | nil => exact Nat.le_refl 0
  | cons b t ih =>
      by_cases own : b = tab
      · rw [own, spreadTabs_tab, List.length_append, List.length_cons, List.length_replicate]
        omega
      · rw [spreadTabs_cons own]
        exact Nat.succ_le_succ ih

section Piece

open Grapheme Width

variable {lead : UInt8} {more tail : Bytes}

theorem tab_not_mem_piece (piece : Piece lead more tail) : tab ∉ more := by
  intro member
  have stop : Rune.isContinuation tab = false := by decide
  rw [piece.continued tab member] at stop
  cases stop

theorem piece_tab (piece : Piece tab more tail) : more = [] := by
  have short := piece.short
  rw [announced_ascii (by decide)] at short
  exact List.length_eq_zero_iff.mp (by omega)

theorem spreadTabs_piece (piece : Piece lead more tail) (other : lead ≠ tab) :
    spreadTabs (lead :: (more ++ tail)) = lead :: (more ++ spreadTabs tail) := by
  rw [spreadTabs_cons other, spreadTabs_append, spreadTabs_of_not_mem (tab_not_mem_piece piece)]

/-- A piece stays one when the tabs behind it are spread. -/
theorem piece_spreadTabs (piece : Piece lead more tail) : Piece lead more (spreadTabs tail) := by
  obtain ⟨enough, short, continued, stopped⟩ := piece
  refine ⟨?_, short, continued, ?_⟩
  · have longer := length_le_spreadTabs tail
    rw [List.length_append] at enough ⊢
    omega
  · intro room b head
    cases tail with
    | nil => cases head
    | cons c tail =>
        by_cases own : c = tab
        · rw [own, spreadTabs_tab] at head
          cases head
          decide
        · rw [spreadTabs_cons own] at head
          exact stopped room b head

/-- Every tab that is spread makes a text wider, whatever stands before it. -/
theorem cells_lt_spreadTabs (t : Bytes) : tab ∈ t → ∀ (s : State) (w : Nat), cells s w t < cells s w (spreadTabs t) := by
  induction t using pieceInduction with
  | nil => exact fun member => (List.not_mem_nil member).elim
  | cut lead rest cut =>
      intro member s w
      -- what is cut off goes with the open cluster as a whole, its tabs too
      obtain ⟨front, back, spread⟩ := exists_spaces member
      have wide := add_three_le_cells front back s w
      have narrow : widen w (ofCluster (lead :: rest)) ≤ w + 2 := by
        have cluster := ofCluster_le (lead :: rest)
        unfold widen
        split <;> omega
      rw [cells_cut w cut, spread]
      omega
  | piece lead more tail piece ih =>
      intro member s w
      by_cases own : lead = tab
      · subst own
        obtain rfl := piece_tab piece
        have behind : cells (.start .control) 0 tail ≤ cells (.start .control) 0 (spreadTabs tail) := by
          by_cases more : tab ∈ tail
          · exact Nat.le_of_lt (ih more _ _)
          · rw [spreadTabs_of_not_mem more]
        -- the first space may join what is before it, and what follows may join the last one: two spaces are left
        have joined := cells_control_le (spreadTabs tail)
        have spaces := le_cells_spaces (s := s) w (spreadTabs tail)
        rw [List.nil_append, cells_tab, spreadTabs_tab]
        omega
      · have inside : tab ∈ tail := by
          cases List.mem_cons.mp member with
          | inl same => exact absurd same.symm own
          | inr among => exact (List.mem_append.mp among).resolve_left (tab_not_mem_piece piece)
        rw [spreadTabs_piece piece own, cells_piece w piece, cells_piece w (piece_spreadTabs piece)]
        split
        · exact ih inside _ _
        · exact Nat.add_lt_add_left (ih inside _ _) w

end Piece

/-- A text without tabs is as wide as it is printed, and any other one is printed wider. -/
theorem width_spreadTabs (t : Bytes) :
    (tab ∉ t → max 1 (Width.ofText t) = max 1 (Width.ofText (spreadTabs t))) ∧
      (tab ∈ t → max 1 (Width.ofText t) < max 1 (Width.ofText (spreadTabs t))) := by
  constructor
  · intro free
    rw [spreadTabs_of_not_mem free]
  · intro member
    obtain ⟨front, back, spread⟩ := exists_spaces member
    have wider := cells_lt_spreadTabs t member (.start .control) 0
    have wide := Width.add_three_le_cells front back (.start .control) 0
    rw [← spread] at wide
    rw [Width.ofText_eq, Width.ofText_eq]
    omega

theorem spells_spreadTabs {codes : List Nat} (spells : Spells t codes) : ∃ codes', Spells (spreadTabs t) codes' := by
  induction spells with
  | nil => exact ⟨[], .nil⟩
  | @cons lead more code tail codes seq _ ih =>
      obtain ⟨codes', behind⟩ := ih
      have piece := Grapheme.piece_sequence seq tail
      by_cases own : lead = tab
      · subst own
        obtain rfl := piece_tab piece
        have spaces : isUtf8 (List.replicate 4 space) = true := by decide
        exact ⟨_, (spells_codes spaces).append behind⟩
      · rw [spreadTabs_piece piece own]
        exact ⟨_, .cons seq behind⟩

/-- Carriage returns that are not printed do not count, unless they stand behind a character that is cut off. -/
theorem width_behind_returns (valid : isUtf8 t = true) (n : Nat) :
    Width.ofText (spreadTabs (t ++ List.replicate n cr)) = Width.ofText (spreadTabs t) := by
  have free : tab ∉ List.replicate n cr := by
    intro member
    exact absurd (List.eq_of_mem_replicate member) (by decide)
  obtain ⟨codes, spells⟩ := spells_spreadTabs (spells_codes valid)
  rw [spreadTabs_append, spreadTabs_of_not_mem free, Width.ofText_append_returns spells.isUtf8]

/-! ## Snippets -/

/-- The line of an offset as far as it is printed: without the carriage returns at its end. -/
def printedLine (t : Bytes) (n : Nat) : Bytes := (lineBefore t n ++ Position.lineOf (t.drop n)).rdropWhile (· == cr)

/-- The part of a span that is printed on the line that it starts in. -/
def covered (t : Bytes) (span : Span) : Bytes :=
  let n := min span.start.toNat t.length
  ((printedLine t n).drop (lineBefore t n).length).take (span.stop.toNat - n)

theorem dropWhile_returns {line : Bytes} (one : lf ∉ line) :
    line.dropWhile (fun b => b == cr || b == lf) = line.dropWhile (· == cr) := by
  induction line with
  | nil => rfl
  | cons b line ih =>
      obtain ⟨own, others⟩ := List.ne_and_not_mem_of_not_mem_cons one
      simp only [List.dropWhile_cons, beq_eq_false_iff_ne.mpr (Ne.symm own), Bool.or_false, ih others]

theorem trimEnd_line {line : Bytes} (one : lf ∉ line) :
    trimEndWhile line (fun b => b == cr || b == lf) = line.rdropWhile (· == cr) := by
  rw [trimEndWhile, List.rdropWhile, dropWhile_returns fun member => one (List.mem_reverse.mp member)]

/-- A text around an offset: the lines before its line, the two parts of its line, and what follows. -/
theorem exists_around (t : Bytes) {n : Nat} (inside : n ≤ t.length) :
    ∃ above below, t = above ++ (lineBefore t n ++ (Position.lineOf (t.drop n) ++ below)) ∧
      above.length + (lineBefore t n).length = n := by
  obtain ⟨above, front⟩ : lineBefore t n <:+ t.take n := List.rtakeWhile_suffix _ _
  obtain ⟨below, back⟩ : Position.lineOf (t.drop n) <+: t.drop n := List.takeWhile_prefix _
  refine ⟨above, below, ?_, ?_⟩
  · rw [back, ← List.append_assoc, front, List.take_append_drop]
  · rw [← List.length_append, front, List.length_take_of_le inside]

theorem slice_behind (above u v : Bytes) : slice (above ++ (u ++ v)) above.length (above.length + u.length) = u := by
  rw [slice, List.drop_left, Nat.add_sub_cancel_left, List.take_left]

theorem prefixed_printedLine (t : Bytes) (n : Nat) : printedLine t n <+: lineBefore t n ++ Position.lineOf (t.drop n) :=
  List.rdropWhile_prefix _ _

theorem prefixed_behind (t : Bytes) (n : Nat) : (printedLine t n).drop (lineBefore t n).length <+: t.drop n := by
  have own := List.IsPrefix.drop (prefixed_printedLine t n) (lineBefore t n).length
  rw [List.drop_left] at own
  exact own.trans (List.takeWhile_prefix _)

theorem take_min_of_prefix {front t : Bytes} (prefixed : front <+: t) (n : Nat) :
    t.take (min n front.length) = front.take n := by
  obtain ⟨rest, rfl⟩ := prefixed
  rw [List.take_append_of_le_length (Nat.min_le_right _ _), ← List.take_take, List.take_length]

/-- A snippet has the line of its span, measured from what is written. -/
theorem snippet_eq (t : Bytes) (span : Span) :
    snippet (LineIndex.ofText t) span =
      let n := min span.start.toNat t.length
      { number := (t.take n).count lf + 1
        line := spreadTabs (printedLine t n)
        indent := Width.ofText (spreadTabs (lineBefore t n))
        width := max 1 (Width.ofText (covered t span)) } := by
  rw [snippet, LineIndex.text_ofText, covered]
  generalize number : min span.start.toNat t.length = n
  have inside : n ≤ t.length := by omega
  obtain ⟨above, below, whole, length⟩ := exists_around t inside
  have start : (LineIndex.ofText t).lineStart ((LineIndex.ofText t).lineOf n) = above.length := by
    have own := LineIndex.lineStart_lineOf t inside
    omega
  have one : lf ∉ lineBefore t n ++ Position.lineOf (t.drop n) := by
    intro member
    cases List.mem_append.mp member with
    | inl front => exact not_mem_lineBefore t n front
    | inr back => simpa using List.mem_takeWhile_imp back
  have line : slice t above.length (n + (Position.lineOf (t.drop n)).length) =
      lineBefore t n ++ Position.lineOf (t.drop n) := by
    have own := slice_behind above (lineBefore t n ++ Position.lineOf (t.drop n)) below
    rw [List.append_assoc, ← whole, List.length_append, ← Nat.add_assoc, length] at own
    exact own
  have front : slice t above.length n = lineBefore t n := by
    have own := slice_behind above (lineBefore t n) (Position.lineOf (t.drop n) ++ below)
    rw [← whole, length] at own
    exact own
  have content : trimEndWhile (slice t above.length (n + (Position.lineOf (t.drop n)).length))
      (fun b => b == cr || b == lf) = printedLine t n := by
    rw [line, trimEnd_line one, printedLine]
  have part : slice t n (min (max span.stop.toNat n) (above.length + (printedLine t n).length)) =
      ((printedLine t n).drop (lineBefore t n).length).take (span.stop.toNat - n) := by
    have room : min (max span.stop.toNat n) (above.length + (printedLine t n).length) - n =
        min (span.stop.toNat - n) ((printedLine t n).drop (lineBefore t n).length).length := by
      rw [List.length_drop]
      omega
    rw [slice, room, take_min_of_prefix (prefixed_behind t n)]
  simp only [start, LineIndex.lineEnd_lineOf t inside, content, front, part]
  rw [LineIndex.lineOf_count t inside]

/-! ## Underlines -/

/-- The lines of a snippet without colours. -/
def Snippet.plain (s : Snippet) : Bytes :=
  utf8 " " ++ Bytes.ofNat s.number ++ utf8 " | " ++ s.line ++ utf8 "\n " ++
    List.replicate (Bytes.ofNat s.number).length space ++ utf8 " | " ++ List.replicate s.indent space ++
    utf8 "^" ++ List.replicate (s.width - 1) 0x7E ++ utf8 "\n"

/-- The line above a snippet without colours. -/
def heading (o : PrettyOptions) (r : Report) (d : Diagnostic) : Bytes :=
  o.mode.render o.cwd o.base r.path ++ utf8 ":" ++ placeText (lineColumn (LineIndex.ofText r.text) d.span.start.toNat) ++
    utf8 ": " ++ d.severity.label ++ utf8 " " ++ d.code.id ++ utf8 ": " ++ d.message ++ utf8 "\n"

/-- Two offsets that a text can be cut at. -/
def Sliceable (t : Bytes) (start stop : Nat) : Prop := start ≤ stop ∧ stop ≤ t.length

variable {o : PrettyOptions} {reports : List Report} {r : Report} {d : Diagnostic}

theorem render_plain (plain : o.color = false) (s : Snippet) : s.render o = s.plain := by
  have bar : utf8 " " ++ utf8 "|" ++ utf8 " " = utf8 " | " := by decide
  simp only [Snippet.render, Snippet.plain, PrettyOptions.gutter, PrettyOptions.caret, PrettyOptions.style, plain,
    Bool.false_eq_true, if_false, ← bar, List.append_assoc]

theorem severity_plain (plain : o.color = false) (s : Severity) : o.severity s = s.label := by
  simp only [PrettyOptions.severity, Style.label, plain, Bool.false_eq_true, if_false, ite_self]

/-- Every diagnostic is shown with its heading and its snippet. -/
theorem shown_in_pretty (plain : o.color = false) (among : r ∈ reports) (listed : d ∈ r.diagnostics) :
    heading o r d ++ (snippet (LineIndex.ofText r.text) d.span).plain <:+: pretty o reports := by
  have own : heading o r d ++ (snippet (LineIndex.ofText r.text) d.span).plain <+:
      prettyOne o (o.mode.render o.cwd o.base r.path) (LineIndex.ofText r.text) d := by
    rw [prettyOne, render_plain plain, severity_plain plain, PrettyOptions.place, PrettyOptions.style, plain,
      if_neg Bool.false_ne_true, heading]
    exact (List.prefix_append _ _).trans (List.prefix_append _ _)
  have inReport : _ <:+: r.diagnostics.flatMap
      (prettyOne o (o.mode.render o.cwd o.base r.path) (LineIndex.ofText r.text)) :=
    List.infix_of_mem_flatten (List.mem_map_of_mem listed)
  have inAll : _ <:+: pretty o reports := List.infix_of_mem_flatten (List.mem_map_of_mem among)
  exact own.isInfix.trans (inReport.trans inAll)

theorem sliceable_parts (t : Bytes) {n : Nat} (inside : n ≤ t.length) (stop : Nat) :
    let lines := LineIndex.ofText t
    let start := lines.lineStart (lines.lineOf n)
    Sliceable t start (lines.lineEnd (lines.lineOf n)) ∧ Sliceable t start n ∧
      Sliceable t n (max n (min stop (start + (printedLine t n).length))) := by
  intro lines start
  have first : start + (lineBefore t n).length = n := LineIndex.lineStart_lineOf t inside
  have last : lines.lineEnd (lines.lineOf n) = n + (Position.lineOf (t.drop n)).length :=
    LineIndex.lineEnd_lineOf t inside
  have behind : (Position.lineOf (t.drop n)).length ≤ (t.drop n).length := (List.takeWhile_prefix _).length_le
  have printed := (prefixed_printedLine t n).length_le
  rw [List.length_drop] at behind
  rw [List.length_append] at printed
  unfold Sliceable
  omega

theorem exists_returns (t : Bytes) (n : Nat) :
    ∃ k, lineBefore t n ++ Position.lineOf (t.drop n) = printedLine t n ++ List.replicate k cr := by
  rw [printedLine, List.rdropWhile]
  generalize lineBefore t n ++ Position.lineOf (t.drop n) = line
  have returns : ∀ b ∈ line.reverse.takeWhile (· == cr), b = cr := fun b member => by
    simpa using List.mem_takeWhile_imp member
  refine ⟨(line.reverse.takeWhile (· == cr)).length, ?_⟩
  rw [← List.reverse_replicate, ← List.eq_replicate_of_mem returns, ← List.reverse_append,
    List.takeWhile_append_dropWhile, List.reverse_reverse]

/-- The underline starts where the printed part of the line in front of the span ends, unless the span starts behind a
printed line whose last character is cut off. -/
theorem indent_printed (t : Bytes) (n : Nat)
    (measured : (lineBefore t n).length ≤ (printedLine t n).length ∨ isUtf8 (printedLine t n) = true) :
    Width.ofText (spreadTabs (lineBefore t n)) =
      Width.ofText (spreadTabs ((printedLine t n).take (lineBefore t n).length)) := by
  have front : lineBefore t n <+: lineBefore t n ++ Position.lineOf (t.drop n) := List.prefix_append _ _
  by_cases inside : (lineBefore t n).length ≤ (printedLine t n).length
  · have shown := List.prefix_of_prefix_length_le front (prefixed_printedLine t n) inside
    rw [← List.prefix_iff_eq_take.mp shown]
  · have valid := measured.resolve_left inside
    have short := Nat.le_of_not_le inside
    obtain ⟨extra, before⟩ := List.prefix_of_prefix_length_le (prefixed_printedLine t n) front short
    obtain ⟨k, whole⟩ := exists_returns t n
    have returns : extra = List.replicate extra.length cr := by
      rw [← before, List.append_assoc] at whole
      have among : extra ++ Position.lineOf (t.drop n) = List.replicate k cr := List.append_cancel_left whole
      apply List.eq_replicate_of_mem
      intro b member
      have listed : b ∈ List.replicate k cr := among ▸ List.mem_append_left _ member
      exact List.eq_of_mem_replicate listed
    rw [List.take_of_length_le short, ← before, returns, width_behind_returns valid]

/-- A diagnostic shows the line of its span with every tab as four spaces and an underline below. The underline starts
where the printed text in front of the span ends, unless the span starts behind a line whose last character is cut off.
It is as long as the printed part of the span if that part has no tab, and too short otherwise. Whatever the span is,
the text is cut at offsets that it has. -/
theorem underline_fits_unless_tab (plain : o.color = false) (among : r ∈ reports) (listed : d ∈ r.diagnostics) :
    let n := min d.span.start.toNat r.text.length
    let before := lineBefore r.text n
    let line := printedLine r.text n
    let part := covered r.text d.span
    (∃ indent width,
      heading o r d ++ (Snippet.mk ((r.text.take n).count lf + 1) (spreadTabs line) indent width).plain <:+:
        pretty o reports ∧
      indent = Width.ofText (spreadTabs before) ∧
      (before.length ≤ line.length ∨ isUtf8 line = true → indent = Width.ofText (spreadTabs (line.take before.length))) ∧
      width = max 1 (Width.ofText part) ∧
      (tab ∉ part → width = max 1 (Width.ofText (spreadTabs part))) ∧
      (tab ∈ part → width < max 1 (Width.ofText (spreadTabs part)))) ∧
    (let lines := LineIndex.ofText r.text
    let start := lines.lineStart (lines.lineOf n)
    Sliceable r.text start (lines.lineEnd (lines.lineOf n)) ∧ Sliceable r.text start n ∧
      Sliceable r.text n (max n (min (max d.span.stop.toNat n) (start + line.length)))) := by
  intro n before line part
  have inside : n ≤ r.text.length := Nat.min_le_right _ _
  obtain ⟨same, short⟩ := width_spreadTabs part
  refine ⟨⟨_, _, ?_, rfl, indent_printed r.text n, rfl, same, short⟩, sliceable_parts r.text inside _⟩
  have shown := shown_in_pretty plain among listed
  rw [snippet_eq] at shown
  exact shown

/-- Wide characters behind a tab have two cells each. -/
theorem underline_fits_unless_tab_wide :
    let o : PrettyOptions := ⟨false, .plain, .basename, [], [], true, true⟩
    let d := Diagnostic.of .error .relativeFileUrl ⟨3, 9⟩ (utf8 "m")
    let r : Report := ⟨utf8 "/w/a.lec", utf8 "x\n\t漢字y\r\n", [d]⟩
    o.color = false ∧ r ∈ [r] ∧ d ∈ r.diagnostics ∧ utf8 " 2 |     漢字y\n   |     ^~~~\n" <:+: pretty o [r] := by
  intro o d r
  have plain : o.color = false := rfl
  have among : r ∈ [r] := List.mem_singleton_self r
  have listed : d ∈ r.diagnostics := List.mem_singleton_self d
  obtain ⟨⟨indent, width, shown, start, -, length, -, -⟩, -⟩ := underline_fits_unless_tab plain among listed
  refine ⟨plain, among, listed, ?_⟩
  have four : indent = 4 := start.trans (by decide +kernel)
  have covers : width = 4 := length.trans (by decide +kernel)
  subst four covers
  have lines : (Snippet.mk ((r.text.take (min d.span.start.toNat r.text.length)).count lf + 1)
      (spreadTabs (printedLine r.text (min d.span.start.toNat r.text.length))) 4 4).plain =
        utf8 " 2 |     漢字y\n   |     ^~~~\n" := by decide +kernel
  rw [lines] at shown
  exact (List.suffix_append _ _).isInfix.trans shown

/-- The underline of a tab between two letters has two cells, and six are printed. A span in the line break behind half a
character has an underline behind two cells, and one is printed. -/
theorem underline_beside_printed :
    let o : PrettyOptions := ⟨false, .plain, .basename, [], [], true, true⟩
    let report (t : Bytes) (span : Span) : Report := ⟨utf8 "/w/a.lec", t, [.of .error .relativeFileUrl span (utf8 "m")]⟩
    let half : Bytes := utf8 "x" ++ [0xC3]
    (pretty o [report (utf8 "a\tb") ⟨0, 3⟩] = utf8 "a.lec:1:1: ERROR LEC3001: m\n 1 | a    b\n   | ^~\n" ∧
      covered (utf8 "a\tb") ⟨0, 3⟩ = utf8 "a\tb" ∧ Width.ofText (utf8 "a    b") = 6) ∧
    (pretty o [report (half ++ utf8 "\r\n") ⟨3, 3⟩] =
        utf8 "a.lec:1:4: ERROR LEC3001: m\n 1 | " ++ half ++ utf8 "\n   |   ^\n" ∧
      printedLine (half ++ utf8 "\r\n") 3 = half ∧ Width.ofText half = 1) := by
  decide +kernel

end Report

end Colloquy
