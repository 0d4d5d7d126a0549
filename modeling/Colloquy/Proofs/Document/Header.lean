import Colloquy.Proofs.Document.Continuation
import Colloquy.Proofs.Outline.Destination

/-! # What a header does not depend on

A closed header stays what it is whatever follows its lines. A text whose first line has a colon on it has no header. So
a part of the body may be replaced behind a colon and the header stays.
-/

namespace Colloquy

namespace Bytes

theorem IsLines.behind {front : Bytes} (whole : front.IsLines) (line : Bytes) : IsLines (line ++ lf :: front) := by
  intro b last
  rw [Option.mem_def, List.getLast?_append_of_ne_nil _ (List.cons_ne_nil _ _), List.getLast?_cons] at last
  obtain rfl := Option.some.inj last
  cases known : front.getLast? with
  | none => rfl
  | some c => exact whole c known

theorem mem_trimEndWhile {p : UInt8 → Bool} {t : Bytes} {b : UInt8} (member : b ∈ t) (kept : p b = false) :
    b ∈ trimEndWhile t p :=
  List.mem_reverse.mpr (Document.Block.takeWhile_front (List.mem_reverse.mpr member) kept []).2.2

end Bytes

namespace Document

namespace Line

theorem mem_dropReturn {t : Bytes} {b : UInt8} (member : b ∈ t) (other : b ≠ Bytes.cr) : b ∈ dropReturn t := by
  unfold dropReturn
  split
  · rename_i last
    obtain ⟨content, rfl⟩ := List.getLast?_eq_some_iff.mp (eq_of_beq last)
    rw [List.dropLast_concat]
    exact (List.mem_append.mp member).resolve_right fun same => other (List.mem_singleton.mp same)
  · exact member

/-- A line of a text ends with whole lines, or with the text. -/
theorem exists_front {l : Line} {start : Nat} {t : Bytes} (member : l ∈ ofText start t) :
    ∃ front rest, t = front ++ rest ∧ l.next = start + front.length ∧ (front.IsLines ∨ rest = []) := by
  induction t using Bytes.lineInduction generalizing start with
  | last t free =>
      rw [ofText_last free] at member
      split at member
      · cases member
      · obtain rfl := List.mem_singleton.mp member
        exact ⟨t, [], (List.append_nil t).symm, rfl, .inr rfl⟩
  | more line rest free ih =>
      rw [ofText_line free] at member
      obtain rfl | behind := List.mem_cons.mp member
      · refine ⟨line ++ [Bytes.lf], rest, by simp, ?_, .inl ?_⟩
        · simp only [List.length_append, List.length_singleton, Nat.add_assoc]
        · exact Bytes.isLines_nil.behind line
      · obtain ⟨front, rest, rfl, next, whole⟩ := ih behind
        refine ⟨line ++ Bytes.lf :: front, rest, by simp, ?_, whole.imp_left fun whole => whole.behind line⟩
        rw [next]
        simp only [List.length_append, List.length_cons]
        omega

end Line

namespace Header

theorem ofText?_of_colon {q : Bytes} (colon : 0x3A ∈ q) (free : Bytes.lf ∉ q) (u : Bytes) :
    ofText? (q ++ u) = none := by
  obtain ⟨line, rest, rfl, -, run, ends⟩ := Bytes.exists_run (· != Bytes.lf) u
  have lineFree : Bytes.lf ∉ q ++ line := by
    intro member
    obtain member | member := List.mem_append.mp member
    · exact free member
    · exact absurd (run _ member) (by decide)
  have lines := Line.ofText_first lineFree (List.append_ne_nil_of_left_ne_nil (List.ne_nil_of_mem colon) line)
    (fun b first => by simpa using ends b first) 0
  -- The colon stands on the first line, so this line does not open a header.
  have held : 0x3A ∈ Line.dropReturn (q ++ line) := Line.mem_dropReturn (List.mem_append_left _ colon) (by decide)
  have other : Bytes.trimEndWhile (Line.dropReturn (q ++ line)) Bytes.isBlankByte ≠ utf8 "---" := by
    intro same
    have inside := Bytes.mem_trimEndWhile (p := Bytes.isBlankByte) held (by decide)
    rw [same] at inside
    exact absurd inside (by decide)
  rw [ofText?, ← List.append_assoc, lines]
  exact if_neg fun opens => other (eq_of_beq (Bool.and_eq_true_iff.mp opens).1)

/-- What follows a closed header does not change it. -/
theorem ofText?_behind_closed {front : Bytes} (whole : front.IsLines) {h : Header}
    (found : ofText? front = some h) (closed : h.closed = true) (u : Bytes) : ofText? (front ++ u) = some h := by
  unfold ofText? at found ⊢
  rw [Line.ofText_append whole 0 u]
  cases known : Line.ofText 0 front with
  | nil => simp [known] at found
  | cons opening rest =>
      simp only [known, List.cons_append, List.find?_append] at found ⊢
      split at found
      · rename_i opens
        rw [if_pos opens]
        cases closing : rest.find? closes with
        | some l =>
            rw [closing] at found
            exact found
        | none =>
            rw [closing] at found
            cases found
            cases closed
      · cases found

/-- What stands behind lines that reach over the header decides only whether the header is closed in them. -/
theorem none_or_closed {front v : Bytes} (whole : front.IsLines) (filled : front ≠ []) (more : v ≠ [])
    (le : bodyOf (ofText? (front ++ v)) ≤ front.length) :
    (∀ u, ofText? (front ++ u) = none) ∨ ∃ h, ofText? front = some h ∧ h.closed = true := by
  have fill := Line.fill_ofText 0 front
  unfold ofText? at le ⊢
  simp only [Line.ofText_append whole 0] at le ⊢
  cases known : Line.ofText 0 front with
  | nil =>
      rw [known] at fill
      exact absurd (List.length_eq_zero_iff.mp (by simpa using fill.eq_of_nil.symm)) filled
  | cons opening rest =>
      simp only [known, List.cons_append, List.find?_append] at le ⊢
      by_cases opens : (bare opening == utf8 "---" && opening.next != opening.stop) = true
      · refine .inr ?_
        rw [if_pos opens] at le ⊢
        cases closing : rest.find? closes with
        | some l => exact ⟨_, rfl, rfl⟩
        | none =>
            exfalso
            -- A header that is closed behind these lines, or nowhere, reaches over them.
            have behind := Line.fill_ofText (0 + front.length) v
            rw [closing, Option.none_or] at le
            cases later : (Line.ofText (0 + front.length) v).find? closes with
            | some l =>
                rw [later] at le
                have bounds := behind.starts l (List.mem_of_find?_eq_some later)
                have le : l.next ≤ front.length := le
                omega
            | none =>
                rw [later] at le
                have le : (front ++ v).length ≤ front.length := le
                have filled := List.length_pos_iff.mpr more
                rw [List.length_append] at le
                omega
      · exact .inl fun u => if_neg opens

/-- A header stays when something behind it is exchanged. -/
theorem ofText?_exchange {front q v : Bytes} (whole : front.IsLines) (colon : 0x3A ∈ q) (free : Bytes.lf ∉ q)
    (le : bodyOf (ofText? (front ++ (q ++ v))) ≤ front.length) (u : Bytes) :
    ofText? (front ++ (q ++ u)) = ofText? (front ++ (q ++ v)) ∧
      ∀ h ∈ ofText? (front ++ (q ++ v)), h.content.stop ≤ front.length := by
  by_cases empty : front = []
  · rw [empty, List.nil_append, List.nil_append, ofText?_of_colon colon free, ofText?_of_colon colon free]
    exact ⟨rfl, nofun⟩
  · obtain none | ⟨h, found, closed⟩ :=
      none_or_closed whole empty (List.append_ne_nil_of_left_ne_nil (List.ne_nil_of_mem colon) v) le
    · rw [none, none]
      exact ⟨rfl, nofun⟩
    · rw [ofText?_behind_closed whole found closed, ofText?_behind_closed whole found closed]
      refine ⟨rfl, ?_⟩
      rintro _ ⟨⟩
      exact (content_bounds found).2

end Header

/-- A header ends with a line, or the text ends with it. -/
theorem isLines_take_body (t : Bytes) :
    Bytes.IsLines (t.take (bodyOf (Header.ofText? t))) ∨ t.length ≤ bodyOf (Header.ofText? t) := by
  unfold Header.ofText?
  split
  · exact .inl (by simpa [bodyOf] using Bytes.isLines_nil)
  · rename_i opening rest lines
    split
    · split
      · rename_i l closing
        have member : l ∈ Line.ofText 0 t := by
          rw [lines]
          exact List.mem_cons_of_mem _ (List.mem_of_find?_eq_some closing)
        obtain ⟨front, rest, rfl, next, whole⟩ := Line.exists_front member
        have body : bodyOf (some (⟨true, ⟨opening.next, l.start⟩, l.next⟩ : Header)) = front.length := by
          rw [← Nat.zero_add front.length, ← next]
          rfl
        rw [body]
        obtain whole | rfl := whole
        · exact .inl (by rwa [List.take_left])
        · exact .inr (by simp)
      · exact .inr (Nat.le_refl _)
    · exact .inl (by simpa [bodyOf] using Bytes.isLines_nil)

end Document

end Colloquy
