import Colloquy.Proofs.Document.Contents
import Colloquy.Proofs.Document.Header
import Colloquy.Proofs.Document.Route
import Colloquy.Proofs.Outline.Bracket
import Colloquy.Proofs.Outline.Query
import Colloquy.Proofs.Text.Space

/-! # Replacing the contents of a directive

When other contents fit between the brackets of a directive, the document in which they are put there has the same
header, its paragraph starts and ends on the same lines, and the scan comes to the directive as before.
-/

namespace Colloquy

namespace Bytes

/-- A text is some lines and what stands behind the last line feed. -/
theorem exists_lines (t : Bytes) : ∃ front last, t = front ++ last ∧ IsLines front ∧ lf ∉ last := by
  induction t using lineInduction with
  | last t free => exact ⟨[], t, rfl, isLines_nil, free⟩
  | more line rest _ ih =>
      obtain ⟨front, last, rfl, whole, free⟩ := ih
      exact ⟨line ++ lf :: front, last, by simp, whole.behind line, free⟩

/-- A stretch around a part of a text. -/
theorem slice_around {front : Bytes} {start : Nat} (le : start ≤ front.length) (part rest : Bytes) (k : Nat) :
    (front ++ (part ++ rest)).slice start (front.length + part.length + k) =
      front.drop start ++ (part ++ rest.take k) := by
  have count : front.length + part.length + k - start = (front.drop start).length + (part.length + k) := by
    rw [List.length_drop]
    omega
  rw [slice, List.drop_append_of_le_length le, count, List.take_length_add_append, List.take_length_add_append]

end Bytes

namespace Document

open Inline (Place DirectiveParts directiveAt? Fits bracketed)

/-- A paragraph starts in the body. -/
theorem Block.EndsParagraph.lo_le {text : Bytes} {ls : List Line} {start stop lo hi : Nat}
    (fill : Line.Fill hi lo ls) (ended : EndsParagraph text .start ls start stop) : lo ≤ start := by
  obtain ⟨read, left, rfl, opened, -⟩ := ended
  obtain ⟨mid, front, -⟩ := fill.append
  have within : (after text .start read).mode.Within lo mid := within_after trivial (Nat.le_refl _) front
  rw [opened] at within
  exact within.1

section

variable {A R c n name : Bytes} {start k : Nat}

/-- The lines in front of a directive that starts in the body, and what stands before it on its own line. -/
theorem exists_lines_before {v : Bytes} (le : bodyOf (Header.ofText? (A ++ v)) ≤ A.length) (some : v ≠ []) :
    ∃ header front last, A = header ++ (front ++ last) ∧ header.length = bodyOf (Header.ofText? (A ++ v)) ∧
      front.IsLines ∧ Bytes.IsLines (header ++ front) ∧ Bytes.lf ∉ last := by
  obtain ⟨front, last, split, whole, free⟩ := Bytes.exists_lines (A.drop (bodyOf (Header.ofText? (A ++ v))))
  have headerWhole : Bytes.IsLines (A.take (bodyOf (Header.ofText? (A ++ v)))) := by
    have := isLines_take_body (A ++ v)
    rw [List.take_append_of_le_length le] at this
    refine this.resolve_right ?_
    have := List.length_pos_iff.mpr some
    rw [List.length_append]
    omega
  refine ⟨A.take _, front, last, ?_, List.length_take_of_le le, whole, ?_, free⟩
  · rw [← split, List.take_append_drop]
  · intro b end_
    rw [Option.mem_def, List.getLast?_append] at end_
    cases known : front.getLast? with
    | none =>
        rw [known] at end_
        exact headerWhole b end_
    | some c =>
        rw [known] at end_
        exact whole b (known.trans end_)

/-- A byte that cannot stand in a name stands in front of the colon. -/
theorem mem_before_name {last : Bytes} {b : UInt8} (named : Inline.IsName name) (other : Inline.isNameByte b = false)
    (notColon : b ≠ 0x3A) (member : b ∈ last ++ 0x3A :: name) : b ∈ last := by
  obtain inside | behind := List.mem_append.mp member
  · exact inside
  · obtain same | inside := List.mem_cons.mp behind
    · exact absurd same notColon
    · exact absurd (named.bytes _ inside) (by simp [other])

/-- A header that lies in the part of two texts that they share has the same text in both. -/
theorem headerText_congr {front v w : Bytes}
    (kept : Header.ofText? (front ++ w) = Header.ofText? (front ++ v))
    (inside : ∀ h, Header.ofText? (front ++ v) = some h → h.content.stop ≤ front.length) :
    (ofText (front ++ w)).headerText = (ofText (front ++ v)).headerText := by
  simp only [headerText, ofText, kept]
  cases found : Header.ofText? (front ++ v) with
  | none => rfl
  | some h =>
      simp only [Extent.of]
      rw [Inline.slice_append_of_le _ (inside h found), Inline.slice_append_of_le _ (inside h found)]

/-- A text with a directive between `A` and `R` that has the contents `c`. -/
def holding (A name R c : Bytes) : Bytes := A ++ (0x3A :: bracketed name c ++ R)

/-- The header stays, and the paragraph goes on as far behind the contents as it did. -/
theorem exchange_contents (named : Inline.IsName name) (body : Nat)
    (same : body = bodyOf (Header.ofText? (holding A name R c))) (le : body ≤ start) (before : start ≤ A.length)
    (ended : Block.EndsParagraph (holding A name R c) .start (Line.ofText body ((holding A name R c).drop body)) start
      (A.length + (0x3A :: bracketed name c).length + k))
    (fits : Fits (A.drop start) c n) :
    Header.ofText? (holding A name R n) = Header.ofText? (holding A name R c) ∧
      (ofText (holding A name R n)).headerText = (ofText (holding A name R c)).headerText ∧
      Block.EndsParagraph (holding A name R n) .start (Line.ofText body ((holding A name R n).drop body)) start
        (A.length + (0x3A :: bracketed name n).length + k) := by
  obtain ⟨header, front, last, rfl, sameLength, whole, above, free⟩ :=
    exists_lines_before (same ▸ Nat.le_trans le before) (v := 0x3A :: bracketed name c ++ R) (by simp)
  have length : header.length = body := sameLength.trans same.symm
  obtain ⟨run, tail, rfl, -, line, ends⟩ := Bytes.exists_run (· != Bytes.lf) R
  -- Both texts are these lines, the bytes in front of the contents, the contents and what stands behind them.
  have parts (x : Bytes) : holding (header ++ (front ++ last)) name (run ++ tail) x =
      header ++ front ++ (last ++ 0x3A :: name ++ [0x5B] ++ (x ++ (0x5D :: run ++ tail))) := by
    simp [holding, bracketed]
  have behind (x : Bytes) : (holding (header ++ (front ++ last)) name (run ++ tail) x).drop body =
      front ++ (last ++ 0x3A :: name ++ [0x5B] ++ (x ++ (0x5D :: run ++ tail))) := by
    rw [parts, List.append_assoc header, ← length, List.drop_left]
  have free : Bytes.lf ∉ last ++ 0x3A :: name ++ [0x5B] := by
    intro member
    obtain inside | bracket := List.mem_append.mp member
    · exact free (mem_before_name named rfl (by decide) inside)
    · exact absurd (List.mem_singleton.mp bracket) (by decide)
  have reaches : body ≤ (header ++ front).length := by
    rw [List.length_append]
    omega
  have headers := Header.ofText?_exchange above (by simp) free (v := c ++ (0x5D :: run ++ tail))
    (by rw [← parts, ← same]; exact reaches) (n ++ (0x5D :: run ++ tail))
  rw [← parts, ← parts] at headers
  obtain ⟨kept, bounds⟩ := headers
  refine ⟨kept, ?_, ?_⟩
  · rw [parts, parts] at kept ⊢
    rw [parts] at bounds
    exact headerText_congr kept bounds
  · rw [behind] at ended ⊢
    have zFree : Bytes.lf ∉ 0x5D :: run := by
      intro member
      obtain same | inside := List.mem_cons.mp member
      · exact absurd same (by decide)
      · exact absurd (line _ inside) (by decide)
    have long : 2 ≤ (last ++ 0x3A :: name).length := by
      obtain ⟨b, first, -⟩ := named.letter
      have filled := List.length_pos_iff.mpr (List.ne_nil_of_mem (List.mem_of_mem_head? first))
      rw [List.length_append, List.length_cons]
      omega
    have ticks (le : start ≤ body + front.length) : 0x60 ∈ last ++ 0x3A :: name → 0x60 ∉ c := by
      intro tick
      have inside := mem_before_name named rfl (by decide) tick
      refine (fits.code ?_).1
      rw [← List.append_assoc, List.drop_append_of_le_length (by rw [List.length_append]; omega)]
      exact List.mem_append_right _ inside
    obtain ⟨stop', moved, ended⟩ := Block.EndsParagraph.exchange
      (holding (header ++ (front ++ last)) name (run ++ tail) n) whole free (by simp) long fits.line zFree (by simp)
      (fun b first => by simpa using ends b first) ticks ended
      (by simp only [List.length_append, List.length_cons] at before ⊢; omega)
      (by simp only [bracketed, List.length_append, List.length_cons] at before ⊢; omega)
    have place : stop' = (header ++ (front ++ last)).length + (0x3A :: bracketed name n).length + k := by
      simp only [bracketed, List.length_append, List.length_cons] at moved ⊢
      omega
    exact place ▸ ended

theorem take_append_drop_holding (A name R c n : Bytes) :
    (holding A name R c).take (A.length + name.length + 2) ++ n ++
      (holding A name R c).drop (A.length + name.length + 2 + c.length) = holding A name R n := by
  have parts : holding A name R c = (A ++ 0x3A :: name ++ [0x5B]) ++ (c ++ 0x5D :: R) := by simp [holding, bracketed]
  have length : A.length + name.length + 2 = (A ++ 0x3A :: name ++ [0x5B]).length := by
    simp only [List.length_append, List.length_cons, List.length_nil]
    omega
  rw [parts, length, List.take_left, ← List.drop_drop, List.drop_left, List.drop_left]
  simp [holding, bracketed]

/-- A directive at a place in a text stands between what is in front of the place and what is behind the directive. -/
theorem exists_holding {t tail : Bytes} {before : Option UInt8} {s : Nat}
    (inside : Place.In t ⟨before, s, 0x3A :: (bracketed name c ++ tail)⟩) :
    ∃ A R, t = holding A name R c ∧ s = A.length := by
  obtain ⟨more, same⟩ := inside
  simp only at same
  have le : s ≤ t.length := by
    by_contra past
    rw [List.drop_eq_nil_of_le (by omega)] at same
    cases same
  refine ⟨t.take s, tail ++ more, ?_, (List.length_take_of_le le).symm⟩
  conv_lhs => rw [← List.take_append_drop s t, ← same]
  simp [holding]

/-- A directive is spelled out as before when its contents are replaced by others with brackets that match. -/
theorem spelled_refill {d : DirectiveParts} {tt tail : Bytes} (spelled : d.Spelled tt tail)
    (brackets : Bracket.square? (0x5B :: (n ++ [0x5D])) = some (n.length + 1)) :
    DirectiveParts.Spelled { d with inner := n } (bracketed d.name n ++ tail) tail := by
  refine ⟨by simp [bracketed], spelled.name, ?_, spelled.attributes⟩
  have whole : 0x5B :: (n ++ 0x5D :: tail) = (0x5B :: (n ++ [0x5D])) ++ tail := by simp
  rw [whole]
  exact Bracket.closing?_append_of_some brackets tail

end

/-- Where the scan comes to a directive, it comes to the directive with other contents that fit. -/
theorem exists_visit_exchanged {t : Bytes} {before : Option UInt8} {s : Nat} {tt : Bytes} {d : DirectiveParts}
    (visits : Visits t ⟨before, s, 0x3A :: tt⟩) (scanned : directiveAt? before tt = some d) :
    ∃ start stop,
      Block.EndsParagraph t .start
        (Line.ofText (bodyOf (Header.ofText? t)) (t.drop (bodyOf (Header.ofText? t)))) start stop ∧
      start ≤ s ∧ s + d.length ≤ stop ∧
      ∀ n, Fits (t.slice start s) d.inner n →
        let t' := t.take (s + d.name.length + 2) ++ n ++ t.drop (s + d.name.length + 2 + d.inner.length)
        Header.ofText? t' = Header.ofText? t ∧ (ofText t').headerText = (ofText t).headerText ∧
        ∃ tt' d', Visits t' ⟨before, s, 0x3A :: tt'⟩ ∧ directiveAt? before tt' = some d' ∧ d'.name = d.name ∧
          d'.inner = n := by
  obtain ⟨may, tail, spelled⟩ := Inline.directiveAt?_spelled scanned
  obtain ⟨name, c, attributes⟩ := d
  obtain rfl : tt = bracketed name c ++ tail := by simp [spelled.text, bracketed]
  obtain ⟨A, R, rfl, rfl⟩ := exists_holding visits.isIn
  obtain ⟨start, stop, ended, reaches⟩ := visits
  have lo : _ ≤ start := ended.lo_le (Line.fill_ofText _ _)
  obtain ⟨u, w, split, place⟩ := reaches.around (List.cons_ne_nil _ _)
  simp only at split place
  have length := congrArg List.length split
  rw [Bytes.slice, List.length_take] at length
  simp only [List.length_append, List.length_cons] at length
  obtain ⟨k, rfl⟩ : ∃ k, stop = A.length + (0x3A :: bracketed name c).length + k :=
    Nat.exists_eq_add_of_le (by rw [List.length_cons]; omega)
  have le : start ≤ A.length := by omega
  have stretch (x : Bytes) := Bytes.slice_around le (0x3A :: bracketed name x) R k
  have front : (holding A name R c).slice start A.length = A.drop start := by
    have whole := Bytes.slice_around le [] (0x3A :: bracketed name c ++ R) 0
    simpa [holding] using whole
  refine ⟨start, _, ended, le, ?_, fun n fits => ?_⟩
  · have bound := Inline.length_le_of_directiveAt? scanned
    rw [List.length_append] at bound
    omega
  simp only at fits
  rw [front] at fits
  simp only [take_append_drop_holding]
  obtain ⟨header, text, ended'⟩ := exchange_contents (n := n) spelled.name _ rfl lo le ended fits
  have visits : Visits (holding A name R n) ⟨before, A.length, 0x3A :: (bracketed name n ++ tail)⟩ := by
    refine ⟨start, A.length + (0x3A :: bracketed name n).length + k, ?_, ?_⟩
    · rw [header]
      exact ended'
    · have exchangeable := fits.exchangeable spelled.name (spelled.closed_before [])
      have again := reaches.exchange exchangeable (List.Subset.refl _)
        (show _ = 0x3A :: (bracketed name c ++ tail) from rfl) (stretch c)
        (by simp only [List.length_drop]; omega)
      rw [holding, stretch]
      exact again
  refine ⟨header, text, bracketed name n ++ tail, ⟨name, n, attributes⟩, visits, ?_, rfl, rfl⟩
  rw [directiveAt?, if_pos may]
  exact (spelled_refill spelled fits.brackets).directive?_eq

end Document

/-! ## In the outline

Contents that fit where a directive stands are found there again: the outline has a directive at the same place, under
the same key and with the new contents. Contents whose brackets do not close each other are not.
-/

open Document (Visits)
open Document.Bracket (square?)
open Document.Inline (DirectiveParts Fits IsName directiveAt? directiveAt?_spelled)

namespace Directive

/-- The text of a directive's document with `n` between the brackets of the directive. -/
def refilled (d : Directive) (t n : Bytes) : Bytes := t.take d.inner.start ++ n ++ t.drop d.inner.stop

theorem mem_of_visits {text t : Bytes} {before : Option UInt8} {s : Nat} {parts : DirectiveParts}
    (visits : Visits text ⟨before, s, 0x3A :: t⟩) (found : directiveAt? before t = some parts) :
    ofNode text ⟨.directive, parts.name, s, s + parts.length, 0⟩ ∈ (Outline.ofText text).directives := by
  have node : ⟨.directive, parts.name, s, s + parts.length, 0⟩ ∈ (Document.ofText text).nodes :=
    (Document.mem_nodes_iff (.inl rfl)).mpr ⟨_, visits, .directive found⟩
  exact List.mem_map.mpr ⟨_, List.mem_filter.mpr ⟨node, rfl⟩, rfl⟩

/-- Contents that fit are found where the contents before were, in a document with the same header. -/
theorem exists_refilled {t : Bytes} {d : Directive} (member : d ∈ (Outline.ofText t).directives) :
    let body := (Document.ofText t).body
    ∃ start stop, Document.Block.EndsParagraph t .start (Document.Line.ofText body (t.drop body)) start stop ∧
      start ≤ d.extent.start ∧ d.extent.stop ≤ stop ∧
      ∀ n, Fits (t.slice start d.extent.start) (d.inner.of t) n →
        Document.Header.ofText? (d.refilled t n) = Document.Header.ofText? t ∧
        (Document.ofText (d.refilled t n)).headerText = (Document.ofText t).headerText ∧
        ∃ d' ∈ (Outline.ofText (d.refilled t n)).directives, d'.extent.start = d.extent.start ∧ d'.key = d.key ∧
          d'.inner.of (d.refilled t n) = n := by
  intro body
  obtain ⟨m, before, u, parts, rfl, visits, scanned, same⟩ := exists_visit member
  obtain ⟨-, tail, spelled⟩ := directiveAt?_spelled scanned
  obtain ⟨-, contents, node⟩ := ofNode_found visits.isIn scanned spelled
  rw [← same] at contents node
  obtain ⟨start, stop, ended, from_, to_, exchanged⟩ := Document.exists_visit_exchanged visits scanned
  have extent : (ofNode t m).extent = ⟨m.start, m.start + parts.length⟩ := by rw [node, same]; rfl
  refine ⟨start, stop, ended, by rw [extent]; exact from_, by rw [extent]; exact to_, fun n fits => ?_⟩
  rw [contents, extent] at fits
  obtain ⟨header, text, u', parts', visits', scanned', name, inner⟩ := exchanged n fits
  have refilled : (ofNode t m).refilled t n =
      t.take (m.start + parts.name.length + 2) ++ n ++
        t.drop (m.start + parts.name.length + 2 + parts.inner.length) := by
    rw [Directive.refilled, node]
  rw [refilled]
  obtain ⟨-, tail', spelled'⟩ := directiveAt?_spelled scanned'
  obtain ⟨-, contents', node'⟩ := ofNode_found visits'.isIn scanned' spelled'
  refine ⟨header, text, _, mem_of_visits visits' scanned', ?_, ?_, contents'.trans inner⟩
  · rw [node', extent]
    rfl
  · rw [node', node, name, same]

/-- What stands in a text from a directive of its outline on. -/
structure Begins (text : Bytes) (d : Directive) (name tail : Bytes) : Prop where
  named : IsName name
  written : text.drop d.extent.start = 0x3A :: (name ++ 0x5B :: (d.inner.of text ++ 0x5D :: tail))
  inner : d.inner = ⟨d.extent.start + name.length + 2, d.extent.start + name.length + 2 + (d.inner.of text).length⟩
  closed : square? (0x5B :: (d.inner.of text ++ [0x5D])) = some ((d.inner.of text).length + 1)

theorem exists_begins {text : Bytes} {d : Directive} (member : d ∈ (Outline.ofText text).directives) :
    ∃ name tail, d.Begins text name tail := by
  obtain ⟨m, before, u, parts, rfl, visits, scanned, same⟩ := exists_visit member
  obtain ⟨-, tail, spelled⟩ := directiveAt?_spelled scanned
  obtain ⟨-, contents, node⟩ := ofNode_found visits.isIn scanned spelled
  rw [← same] at contents node
  obtain ⟨more, whole⟩ := visits.isIn
  refine ⟨parts.name, tail ++ more, spelled.name, ?_, ?_, ?_⟩
  · rw [contents, node]
    refine whole.symm.trans ?_
    simp [spelled.text]
  · rw [contents, node]
    rfl
  · rw [contents]
    exact spelled.closed_before []

/-- Where contents start in the same place, no directive starts behind the other: its colon would stand in the other
    one's name. -/
theorem Begins.start_le {text : Bytes} {d d' : Directive} {name tail name' tail' : Bytes}
    (begins : d.Begins text name tail) (begins' : d'.Begins text name' tail') (same : d.inner.start = d'.inner.start) :
    d'.extent.start ≤ d.extent.start := by
  by_contra behind
  have inner : d.inner.start = d.extent.start + name.length + 2 := by rw [begins.inner]
  have inner' : d'.inner.start = d'.extent.start + name'.length + 2 := by rw [begins'.inner]
  obtain ⟨k, start⟩ : ∃ k, d'.extent.start = d.extent.start + (k + 1) :=
    ⟨d'.extent.start - d.extent.start - 1, by omega⟩
  have inside : k < name.length := by omega
  have colon : text[d'.extent.start]? = some 0x3A := by
    rw [← List.head?_drop, begins'.written]
    rfl
  have named : text[d'.extent.start]? = some name[k] := by
    rw [start, ← List.getElem?_drop, begins.written, List.getElem?_cons_succ, List.getElem?_append_left inside,
      List.getElem?_eq_getElem inside]
  have byte := begins.named.bytes name[k] (List.getElem_mem inside)
  rw [Option.some.inj (named.symm.trans colon)] at byte
  exact absurd byte (by decide)

/-- No two directives have contents that start at the same place. -/
theorem eq_of_inner {text : Bytes} {a b : Directive} (first : a ∈ (Outline.ofText text).directives)
    (second : b ∈ (Outline.ofText text).directives) (same : a.inner.start = b.inner.start) : a = b := by
  obtain ⟨_, _, begins⟩ := exists_begins first
  obtain ⟨_, _, begins'⟩ := exists_begins second
  have before := begins.start_le begins' same
  have behind := begins'.start_le begins same.symm
  exact Outline.eq_of_start first second (Nat.le_antisymm behind before)

/-- Contents are found as they were put there, but for white space around them, only if their brackets close each
    other. -/
theorem closed_of_refilled {t n : Bytes} {d d' : Directive} (member : d ∈ (Outline.ofText t).directives)
    (member' : d' ∈ (Outline.ofText (d.refilled t n)).directives) (start : d'.extent.start = d.extent.start)
    (trimmed : Bytes.trim n = n) (some : n ≠ []) (found : Bytes.trim (d'.inner.of (d.refilled t n)) = n) :
    square? (0x5B :: (n ++ [0x5D])) = .some (n.length + 1) := by
  obtain ⟨name, tail, begins⟩ := exists_begins member
  obtain ⟨name', tail', begins'⟩ := exists_begins member'
  have written : (d.refilled t n).drop d.extent.start = 0x3A :: (name ++ 0x5B :: (n ++ 0x5D :: tail)) := by
    have le : d.extent.start ≤ t.length := by
      by_contra past
      have none := begins.written
      rw [List.drop_eq_nil_of_le (by omega)] at none
      cases none
    have whole : t = Document.holding (t.take d.extent.start) name tail (d.inner.of t) := by
      conv_lhs => rw [← List.take_append_drop d.extent.start t, begins.written]
      simp [Document.holding, Document.Inline.bracketed]
    have length : (t.take d.extent.start).length = d.extent.start := List.length_take_of_le le
    have again := Document.take_append_drop_holding (t.take d.extent.start) name tail (d.inner.of t) n
    rw [length, ← whole] at again
    rw [refilled, begins.inner, again, Document.holding, List.drop_left' length]
    simp [Document.Inline.bracketed]
  -- Both texts begin with the same name, and so the contents begin alike.
  have alike : d'.inner.of (d.refilled t n) ++ 0x5D :: tail' = n ++ 0x5D :: tail := by
    have both := begins'.written
    rw [start, written, List.cons.injEq] at both
    have stops (rest : Bytes) : ∀ b ∈ (0x5B :: rest).head?, Document.Inline.isNameByte b = false := by simp; decide
    have rest := congrArg (List.dropWhile Document.Inline.isNameByte) both.2
    rw [Document.Inline.dropWhile_run begins.named.bytes (stops _),
      Document.Inline.dropWhile_run begins'.named.bytes (stops _), List.cons.injEq] at rest
    exact rest.2.symm
  have closed := begins'.closed
  generalize d'.inner.of (d.refilled t n) = contents at alike closed found
  obtain ⟨more, rfl, -⟩ | ⟨more, rfl, behind⟩ := List.append_eq_append_iff.mp alike
  · -- Nothing is missing at the end, since nothing trimmed is longer than it was.
    have le := (Bytes.isInfix_trim contents).length_le
    rw [found, List.length_append] at le
    obtain rfl : more = [] := List.length_eq_zero_iff.mp (by omega)
    rwa [List.append_nil]
  · -- What comes behind `n` would begin with a bracket, which is not trimmed.
    cases more with
    | nil => rwa [List.append_nil] at closed
    | cons b more =>
        obtain ⟨rfl, -⟩ := List.cons.inj behind
        exact absurd found (Bytes.trim_append_ne trimmed some (by decide) (by decide) more)

end Directive

end Colloquy
