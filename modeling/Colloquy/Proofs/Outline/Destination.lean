import Colloquy.Proofs.Document.Place
import Colloquy.Proofs.Outline.Inner
import Colloquy.Proofs.Outline.Turn

/-! # The destination of a link

The scan matches the label of a link by its brackets and the destination behind it. The outline looks for the
destination once more in the text of the link, without regard to brackets and escapes: it takes the first closing
bracket with a parenthesis or a colon behind it for the end of the label, and the first closing angle bracket for the
end of the destination. Where the label holds such a pair the URL is taken from the label, and an escaped angle bracket
cuts it short. Everywhere else the URL is in the destination that the scan has matched.
-/

namespace Colloquy

namespace Bytes

/-- A text starts with a run of bytes that pass a test, and goes on with one that does not. -/
theorem exists_run (p : UInt8 → Bool) (t : Bytes) :
    ∃ run rest, t = run ++ rest ∧ (run ++ rest).takeWhile p = run ∧ (∀ b ∈ run, p b = true) ∧
      ∀ b ∈ rest.head?, p b = false := by
  have split := List.takeWhile_append_dropWhile (p := p) (l := t)
  refine ⟨t.takeWhile p, t.dropWhile p, split.symm, by rw [split], List.all_eq_true.mp List.all_takeWhile, ?_⟩
  intro b first
  have stops := List.head?_dropWhile_not p t
  rw [Option.mem_def.mp first] at stops
  exact stops

/-! ## Finding two bytes -/

section

variable {a b : UInt8}

theorem find?_cons_of_ne {c : UInt8} (other : c ≠ a) (t : Bytes) :
    find? (c :: t) [a, b] = (find? t [a, b]).map (· + 1) := by
  rw [find?, if_neg (by simp [Ne.symm other])]

theorem find?_skip {front : Bytes} (free : a ∉ front) (t : Bytes) :
    find? (front ++ t) [a, b] = (find? t [a, b]).map (· + front.length) := by
  induction front with
  | nil => simp
  | cons c front ih =>
      obtain ⟨other, free⟩ : a ≠ c ∧ a ∉ front := by simpa using free
      rw [List.cons_append, find?_cons_of_ne (Ne.symm other), ih free, Option.map_map]
      rfl

/-- Two bytes are found in front, or else behind, when they do not meet in between. -/
theorem find?_append {u : Bytes} (apart : u.head? ≠ some b) (t : Bytes) :
    find? (t ++ u) [a, b] = (find? t [a, b]).or ((find? u [a, b]).map (· + t.length)) := by
  induction t with
  | nil => simp [find?]
  | cons c t ih =>
      have here : [a, b].isPrefixOf (c :: t ++ u) = [a, b].isPrefixOf (c :: t) := by
        cases t with
        | cons d t => simp [List.isPrefixOf]
        | nil =>
            cases u with
            | nil => rfl
            | cons d u =>
                have other : b ≠ d := fun same => apart (by rw [same, List.head?_cons])
                simp [List.isPrefixOf, other]
      rw [List.cons_append, find?, ← List.cons_append, here, find?]
      split
      · rfl
      · rw [ih, Option.map_or, Option.map_map]
        rfl

end

end Bytes

namespace Document

namespace Inline

/-! ## How a link is written -/

/-- The ways to write where a link leads. -/
inductive LinkForm where
  /-- In parentheses behind the label. -/
  | parens
  /-- In angle brackets in these parentheses. -/
  | angles
  /-- Behind the label and a colon. -/
  | definition
  deriving DecidableEq

/-- A link as it is written. -/
structure LinkParts where
  form : LinkForm
  /-- The opening bracket of the label; an image has an exclamation mark in front of it. -/
  opening : Bytes
  label : Bytes
  /-- What stands between the closing bracket of the label and the destination. -/
  lead : Bytes
  destination : Bytes
  /-- What the link takes behind the destination. -/
  ending : Bytes

namespace LinkParts

def written (p : LinkParts) : Bytes := p.opening ++ p.label ++ 0x5D :: (p.lead ++ p.destination ++ p.ending)

/-- The offset of the closing bracket of the label. -/
def close (p : LinkParts) : Nat := p.opening.length + p.label.length

/-- Where the destination lies. -/
def target (p : LinkParts) : Extent :=
  ⟨p.close + 1 + p.lead.length, p.close + 1 + p.lead.length + p.destination.length⟩

/-- Whether the label, or in a definition with no such pair behind it also a colon, makes the outline take another
closing bracket for the end of the label. -/
def Misleads (p : LinkParts) : Prop :=
  Bytes.contains p.label (utf8 "](") = true ∨
    (p.form = .definition ∧ Bytes.contains p.label (utf8 "]:") = true ∧
      Bytes.contains p.destination (utf8 "](") = false)

theorem find?_eq_none_of_clear {p : LinkParts} (clear : ¬ p.Misleads) : p.label.find? (utf8 "](") = none :=
  Option.not_isSome_iff_eq_none.mp fun held => clear (.inl held)

end LinkParts

/-- Where a link leads, as the scan matches it behind the closing bracket of the label. -/
inductive Leads (behind : Bytes) : LinkForm → (lead destination ending : Bytes) → Prop where
  | parens {t : Bytes} (plain : (t.dropWhile Bytes.isBlankByte).head? ≠ some 0x3C)
      (closed : Bracket.paren? (0x28 :: (t ++ 0x29 :: behind)) = some (t.length + 1)) :
      Leads behind .parens [0x28] t [0x29]
  | angles {blanks t title : Bytes} (blank : ∀ b ∈ blanks, Bytes.isBlankByte b = true)
      (closed : angleFrom false 0 (t ++ 0x3E :: (title ++ 0x29 :: behind)) = some t.length)
      (ended : Bytes.indexOf? (title ++ 0x29 :: behind) 0x29 = some title.length) :
      Leads behind .angles (0x28 :: (blanks ++ [0x3C])) t (0x3E :: (title ++ [0x29]))
  | definition {blanks t : Bytes} (blank : ∀ b ∈ blanks, Bytes.isBlankByte b = true) (some : t ≠ [])
      (word : ∀ b ∈ t, Bytes.isSpaceByte b = false) (ended : ∀ b ∈ behind.head?, Bytes.isSpaceByte b = true) :
      Leads behind .definition (0x3A :: blanks) t []

/-- A link with the text behind it, as the scan matches it. -/
structure LinkParts.Spelled (p : LinkParts) (before : Option UInt8) (behind : Bytes) : Prop where
  opening : p.opening = [0x5B] ∨ p.opening = [0x21, 0x5B] ∧ p.form ≠ .definition
  closed : Bracket.square? (0x5B :: (p.label ++ 0x5D :: (p.lead ++ p.destination ++ p.ending ++ behind))) =
    some (p.label.length + 1)
  leads : Leads behind p.form p.lead p.destination p.ending
  /-- A definition starts a line. -/
  fresh : p.form = .definition → before = none ∨ before = some Bytes.lf

theorem drop_run (b : UInt8) (run rest : Bytes) : (b :: (run ++ rest)).drop (1 + run.length) = rest := by
  rw [Nat.add_comm, List.drop_succ_cons, List.drop_left]

theorem LinkParts.Spelled.opening_free {p : LinkParts} {before : Option UInt8} {behind : Bytes}
    (spelled : p.Spelled before behind) : 0x5D ∉ p.opening := by
  obtain same | ⟨same, -⟩ := spelled.opening <;> rw [same] <;> decide

theorem destination?_leads {t : Bytes} {n : Nat} (found : destination? (0x28 :: t) = some n) :
    ∃ form lead destination ending behind, form ≠ .definition ∧ 0x28 :: t = lead ++ destination ++ ending ++ behind ∧
      n + 1 = (lead ++ destination ++ ending).length ∧ Leads behind form lead destination ending := by
  obtain ⟨blanks, u, rfl, run, blank, stops⟩ := Bytes.exists_run Bytes.isBlankByte t
  simp only [destination?, List.drop_one, List.tail_cons, run, drop_run] at found
  split at found
  · rename_i angle
    obtain ⟨u, rfl⟩ := List.head?_eq_some_iff.mp (eq_of_beq angle)
    rw [List.tail_cons] at found
    split at found
    · cases found
    · rename_i stop closed
      obtain ⟨destination, x, rfl, rfl⟩ := Bytes.exists_split (angleFrom_getElem closed).2
      have rest : (0x3C :: (destination ++ 0x3E :: x)).drop (destination.length + 2) = x := by simp
      obtain ⟨i, ended, rfl⟩ := Option.map_eq_some_iff.mp found
      rw [rest] at ended
      obtain ⟨title, tail, rfl, rfl⟩ := Bytes.exists_split (indexOf?_getElem ended)
      refine ⟨.angles, _, destination, _, tail, by decide, ?_, ?_, .angles blank closed ended⟩
      · simp
      · simp
        omega
  · rename_i plain
    obtain ⟨destination, tail, split, rfl⟩ := Bracket.closing?_split (by decide) found
    refine ⟨.parens, [0x28], destination, [0x29], tail, by decide, by simp [split], by simp, .parens ?_ ?_⟩
    · intro angle
      have first : ((blanks ++ u).dropWhile Bytes.isBlankByte).head? = some 0x3C := by
        rw [split, dropWhile_append_of_stop (fun b first => by cases first; rfl), List.head?_append, angle]
        rfl
      rw [dropWhile_run blank stops] at first
      exact plain (by rw [first]; rfl)
    · rw [← split]
      exact found

theorem definition?_leads {t : Bytes} {n : Nat} (found : definition? (0x3A :: t) = some n) :
    ∃ lead destination behind, 0x3A :: t = lead ++ destination ++ behind ∧ n = (lead ++ destination).length ∧
      Leads behind .definition lead destination [] := by
  obtain ⟨blanks, u, rfl, run, blank, -⟩ := Bytes.exists_run Bytes.isBlankByte t
  simp only [definition?, List.drop_one, List.tail_cons, run, drop_run] at found
  obtain ⟨word, tail, rfl, run, filled, stops⟩ := Bytes.exists_run (fun b => !Bytes.isSpaceByte b) u
  rw [run] at found
  split_ifs at found with missing
  cases found
  refine ⟨0x3A :: blanks, word, tail, by simp, ?_, .definition blank (by simpa using missing) ?_ ?_⟩
  · simp
    omega
  · simpa using filled
  · simpa using stops

/-- The label of a link starts behind the bracket, which in an image is the second byte. -/
theorem exists_opening {b : UInt8} {t : Bytes} (starts : startsLink b t = true) :
    ∃ opening u, b :: t = opening ++ u ∧ (b :: t).drop (if (b :: t).head? == some 0x21 then 1 else 0) = 0x5B :: u ∧
      (if (b :: t).head? == some 0x21 then 1 else 0) + 1 = opening.length ∧
      (opening = [0x5B] ∨ opening = [0x21, 0x5B]) := by
  simp only [startsLink, Bool.or_eq_true, Bool.and_eq_true, beq_iff_eq] at starts
  obtain rfl | ⟨rfl, bracket⟩ := starts
  · exact ⟨[0x5B], t, rfl, rfl, rfl, .inl rfl⟩
  · obtain ⟨u, rfl⟩ := List.head?_eq_some_iff.mp bracket
    exact ⟨[0x21, 0x5B], u, rfl, rfl, rfl, .inr rfl⟩

theorem link?_spelled {before : Option UInt8} {b : UInt8} {t : Bytes} {n : Nat} (starts : startsLink b t = true)
    (found : link? before (b :: t) = some n) :
    ∃ (p : LinkParts) (behind : Bytes), b :: t = p.written ++ behind ∧ n = p.written.length ∧
      p.Spelled before behind := by
  obtain ⟨opening, u, text, known, length, kind⟩ := exists_opening starts
  simp only [link?, known] at found
  generalize (if (b :: t).head? == some 0x21 then 1 else 0) = bang at found length
  cases closed : Bracket.square? (0x5B :: u) with
  | none =>
      rw [closed] at found
      cases found
  | some close =>
      obtain ⟨label, v, rfl, rfl⟩ := Bracket.closing?_split (by decide) closed
      have rest : (b :: t).drop (bang + (label.length + 1) + 1) = v := by
        rw [text, show bang + (label.length + 1) + 1 = (opening ++ label).length + 1 by simp; omega,
          ← List.append_assoc, List.drop_append]
        simp
      simp only [closed, rest] at found
      split at found
      · rename_i paren
        obtain ⟨w, rfl⟩ := List.head?_eq_some_iff.mp paren
        obtain ⟨i, target, rfl⟩ := Option.map_eq_some_iff.mp found
        obtain ⟨form, lead, destination, ending, behind, other, split, last, leads⟩ := destination?_leads target
        refine ⟨⟨form, opening, label, lead, destination, ending⟩, behind, ?_, ?_, ?_, ?_, leads, ?_⟩
        · rw [text, split]
          simp [LinkParts.written]
        · simp only [LinkParts.written, List.length_append, List.length_cons] at last ⊢
          omega
        · exact kind.imp_right fun image => ⟨image, other⟩
        · rw [← closed, split]
        · exact fun same => absurd same other
      · rename_i colon
        obtain ⟨w, rfl⟩ := List.head?_eq_some_iff.mp colon
        split_ifs at found with fresh
        obtain ⟨plain, line⟩ := Bool.and_eq_true_iff.mp fresh
        obtain ⟨i, target, rfl⟩ := Option.map_eq_some_iff.mp found
        obtain ⟨lead, destination, behind, split, last, leads⟩ := definition?_leads target
        have bracket : opening = [0x5B] := by
          obtain rfl | rfl := kind
          · rfl
          · have image : bang ≠ 0 := by
              simp only [List.length_cons, List.length_nil] at length
              omega
            exact absurd (eq_of_beq plain) image
        refine ⟨⟨.definition, opening, label, lead, destination, []⟩, behind, ?_, ?_, ?_, ?_, leads, ?_⟩
        · rw [text, split]
          simp [LinkParts.written]
        · simp only [LinkParts.written, List.length_append, List.length_cons, List.length_nil, bracket] at last ⊢
          omega
        · exact .inl bracket
        · rw [← closed, split]
          simp
        · simpa using line
      · cases found

end Inline

end Document

open Document.Inline (LinkParts takeWhile_run dropWhile_run)

namespace Link

/-! ## Where the outline looks -/

section

variable {raw : Bytes} {i c : Nat} {b : UInt8}

/-- Blanks end in front of every other byte. -/
theorem skipBlanks_le (le : i ≤ c) (here : raw[c]? = some b) (other : Bytes.isBlankByte b = false) :
    skipBlanks raw i ≤ c := by
  by_contra past
  have inside : c - i < ((raw.drop i).takeWhile Bytes.isBlankByte).length := by
    rw [skipBlanks] at past
    omega
  have blank := List.all_eq_true.mp List.all_takeWhile _ (List.getElem_mem inside)
  have same := List.prefix_iff_getElem?.mp (List.takeWhile_prefix (l := raw.drop i) Bytes.isBlankByte) (c - i) inside
  rw [List.getElem?_drop, Nat.add_sub_of_le le, here] at same
  rw [← Option.some.inj same, other] at blank
  cases blank

section

variable (plain : Bytes.startsWith raw (utf8 "<") = false) (found : raw.find? (utf8 "](") = some i)
include plain found

theorem destination_of_angle {k : Nat} (opened : raw[skipBlanks raw (i + 2)]? = some 0x3C)
    (closed : Bytes.indexOf? (raw.drop (skipBlanks raw (i + 2) + 1)) 0x3E = some k) :
    destination raw = ⟨skipBlanks raw (i + 2) + 1, skipBlanks raw (i + 2) + 1 + k⟩ := by
  rw [destination, if_neg (by rw [plain]; decide), found]
  simp only [opened, beq_self_eq_true, if_true, closed]

theorem destination_of_paren {k : Nat} (other : raw[skipBlanks raw (i + 2)]? ≠ some 0x3C)
    (closed : Document.Bracket.paren? (raw.drop (i + 1)) = some k) :
    destination raw = ⟨skipBlanks raw (i + 2),
      max (skipBlanks raw (i + 2)) (min (wordEnd raw (skipBlanks raw (i + 2))) (i + 1 + k))⟩ := by
  rw [destination, if_neg (by rw [plain]; decide), found]
  simp only [beq_eq_false_iff_ne.mpr other, closed]
  rfl

/-- The URL starts behind the first closing bracket with a parenthesis behind it. -/
theorem start_of_paren : (destination raw).start = skipBlanks raw (i + 2) ∨
    raw[skipBlanks raw (i + 2)]? = some 0x3C ∧ (destination raw).start = skipBlanks raw (i + 2) + 1 := by
  rw [destination, if_neg (by rw [plain]; decide), found]
  dsimp only
  split
  · rename_i angle
    split_ifs at angle with opened
    exact .inr ⟨eq_of_beq opened, rfl⟩
  · split <;> exact .inl rfl

/-- Where that bracket stands in front of another at `c`, the URL starts between the two. -/
theorem start_le_of_paren (early : i + 2 ≤ c) (here : raw[c]? = some 0x5D) :
    i + 2 ≤ (destination raw).start ∧ (destination raw).start ≤ c := by
  have le := skipBlanks_le early here (by decide)
  have ge : i + 2 ≤ skipBlanks raw (i + 2) := Nat.le_add_right _ _
  obtain start | ⟨angle, start⟩ := start_of_paren plain found
  · omega
  · have other : skipBlanks raw (i + 2) ≠ c := by
      intro same
      rw [same, here] at angle
      cases angle
    omega

end

theorem destination_of_colon (plain : Bytes.startsWith raw (utf8 "<") = false)
    (none : raw.find? (utf8 "](") = none) (found : raw.find? (utf8 "]:") = some i) :
    destination raw = ⟨skipBlanks raw (i + 2), wordEnd raw (skipBlanks raw (i + 2))⟩ := by
  rw [destination, if_neg (by rw [plain]; decide), none, found]

end

/-! ## What it finds behind a label

In each of these, `front` is the link up to the closing bracket of its label, and the outline takes that for the end
of the label.
-/

section

variable {front blanks t : Bytes}

/-- The blanks behind the two bytes that end the label are skipped. -/
theorem skipBlanks_behind (front : Bytes) (x : UInt8) (rest : Bytes) (blank : ∀ b ∈ blanks, Bytes.isBlankByte b = true)
    (stops : ∀ b ∈ rest.head?, Bytes.isBlankByte b = false) :
    skipBlanks (front ++ 0x5D :: x :: (blanks ++ rest)) (front.length + 2) = front.length + 2 + blanks.length := by
  have behind : (front ++ 0x5D :: x :: (blanks ++ rest)).drop (front.length + 2) = blanks ++ rest := by simp
  rw [skipBlanks, behind, takeWhile_run blank stops]

theorem drop_behind (front blanks rest : Bytes) (x : UInt8) (k : Nat) :
    (front ++ 0x5D :: x :: (blanks ++ rest)).drop (front.length + 2 + blanks.length + k) = rest.drop k := by
  have text : front ++ 0x5D :: x :: (blanks ++ rest) = (front ++ 0x5D :: x :: blanks) ++ rest := by simp
  have length : front.length + 2 + blanks.length = (front ++ 0x5D :: x :: blanks).length := by
    simp
    omega
  rw [text, length, ← List.drop_drop, List.drop_left]

theorem getElem?_behind (front blanks rest : Bytes) (x : UInt8) :
    (front ++ 0x5D :: x :: (blanks ++ rest))[front.length + 2 + blanks.length]? = rest.head? := by
  rw [← List.head?_drop, ← Nat.add_zero (front.length + 2 + blanks.length), drop_behind, List.drop_zero]

/-- In parentheses, the URL is a word between them. -/
theorem contains_parens (plain : Bytes.startsWith (front ++ 0x5D :: 0x28 :: (t ++ [0x29])) (utf8 "<") = false)
    (found : Bytes.find? (front ++ 0x5D :: 0x28 :: (t ++ [0x29])) (utf8 "](") = some front.length)
    (other : (t.dropWhile Bytes.isBlankByte).head? ≠ some 0x3C)
    (closed : Document.Bracket.paren? (0x28 :: (t ++ [0x29])) = some (t.length + 1)) :
    Extent.Contains ⟨front.length + 2, front.length + 2 + t.length⟩
      (destination (front ++ 0x5D :: 0x28 :: (t ++ [0x29]))) := by
  obtain ⟨blanks, u, rfl, -, blank, stops⟩ := Bytes.exists_run Bytes.isBlankByte t
  have ends : ∀ b ∈ (u ++ [0x29]).head?, Bytes.isBlankByte b = false := by
    cases u with
    | nil => exact fun b first => by cases first; rfl
    | cons b u => exact stops
  have paren : (u ++ [0x29]).head? ≠ some 0x3C := by
    rw [dropWhile_run blank stops] at other
    cases u with
    | nil => decide
    | cons b u => exact other
  rw [List.append_assoc] at plain found closed ⊢
  have skipped := skipBlanks_behind front 0x28 _ blank ends
  have behind : (front ++ 0x5D :: 0x28 :: (blanks ++ (u ++ [0x29]))).drop (front.length + 1) =
      0x28 :: (blanks ++ (u ++ [0x29])) := by simp
  rw [destination_of_paren plain found (by rw [skipped, getElem?_behind]; exact paren) (by rw [behind]; exact closed),
    skipped]
  simp only [Extent.Contains, List.length_append]
  omega

/-- In angle brackets, the URL goes to the first closing one. -/
theorem destination_angles {title : Bytes} (blank : ∀ b ∈ blanks, Bytes.isBlankByte b = true)
    (plain : Bytes.startsWith (front ++ 0x5D :: 0x28 :: (blanks ++ 0x3C :: (t ++ 0x3E :: title))) (utf8 "<") = false)
    (found : Bytes.find? (front ++ 0x5D :: 0x28 :: (blanks ++ 0x3C :: (t ++ 0x3E :: title))) (utf8 "](") =
      some front.length) :
    destination (front ++ 0x5D :: 0x28 :: (blanks ++ 0x3C :: (t ++ 0x3E :: title))) =
      ⟨front.length + 2 + blanks.length + 1,
        front.length + 2 + blanks.length + 1 + (Bytes.indexOf? t 0x3E).getD t.length⟩ := by
  have skipped := skipBlanks_behind front 0x28 (0x3C :: (t ++ 0x3E :: title)) blank (by simp; rfl)
  have closed : Bytes.indexOf? (t ++ 0x3E :: title) 0x3E = some ((Bytes.indexOf? t 0x3E).getD t.length) := by
    rw [Bytes.indexOf?, List.findIdx?_append, List.findIdx?_cons, beq_self_eq_true, Bytes.indexOf?]
    cases t.findIdx? (· == 0x3E) <;> simp
  rw [destination_of_angle plain found (by rw [skipped, getElem?_behind]; rfl)
    (by rw [skipped, drop_behind]; exact closed), skipped]

/-- Behind a colon, the URL is all that follows the blanks. -/
theorem destination_definition (blank : ∀ b ∈ blanks, Bytes.isBlankByte b = true)
    (word : ∀ b ∈ t, Bytes.isSpaceByte b = false)
    (plain : Bytes.startsWith (front ++ 0x5D :: 0x3A :: (blanks ++ t)) (utf8 "<") = false)
    (none : Bytes.find? (front ++ 0x5D :: 0x3A :: (blanks ++ t)) (utf8 "](") = none)
    (found : Bytes.find? (front ++ 0x5D :: 0x3A :: (blanks ++ t)) (utf8 "]:") = some front.length) :
    destination (front ++ 0x5D :: 0x3A :: (blanks ++ t)) =
      ⟨front.length + 2 + blanks.length, front.length + 2 + blanks.length + t.length⟩ := by
  have blankSpace : ∀ b : UInt8, Bytes.isSpaceByte b = false → Bytes.isBlankByte b = false := by
    intro b visible
    simp only [Bytes.isSpaceByte, Bool.or_eq_false_iff] at visible
    exact Bool.or_eq_false_iff.mpr visible.1.1
  have skipped := skipBlanks_behind front 0x3A t blank fun b first =>
    blankSpace b (word b (List.mem_of_mem_head? first))
  have ends : wordEnd (front ++ 0x5D :: 0x3A :: (blanks ++ t)) (front.length + 2 + blanks.length) =
      front.length + 2 + blanks.length + t.length := by
    have behind := drop_behind front blanks t 0x3A 0
    rw [Nat.add_zero, List.drop_zero] at behind
    have all : (t ++ []).takeWhile (fun b => !Bytes.isSpaceByte b) = t := takeWhile_run (by simpa using word) nofun
    rw [List.append_nil] at all
    rw [wordEnd, behind, all]
  rw [destination_of_colon plain none found, skipped, ends]

end

/-! ## What it finds in a link -/

section

variable {p : LinkParts} {before : Option UInt8} {behind : Bytes} (spelled : p.Spelled before behind)
include spelled

theorem startsWith_written : Bytes.startsWith p.written (utf8 "<") = false := by
  obtain same | ⟨same, -⟩ := spelled.opening <;> rw [LinkParts.written, same] <;> rfl

omit spelled in
theorem getElem?_close : p.written[p.close]? = some 0x5D := by
  simp [LinkParts.written, LinkParts.close]

/-- A closing bracket of the label with `x` behind it is found in front of everything else. -/
theorem find?_of_label {x : UInt8} {j : Nat} (other : (0x5D : UInt8) ≠ x) (held : p.label.find? [0x5D, x] = some j) :
    p.written.find? [0x5D, x] = some (p.opening.length + j) ∧ p.opening.length + j + 2 ≤ p.close := by
  have inside := Bytes.find?_le held
  refine ⟨?_, ?_⟩
  · rw [LinkParts.written, Bytes.find?_append (by simpa using other), Bytes.find?_skip spelled.opening_free, held]
    simp [Nat.add_comm]
  · simp only [List.length_cons, List.length_nil, LinkParts.close] at inside ⊢
    omega

/-- Without one, what is found is behind the label. -/
theorem find?_of_label_none {x : UInt8} (other : (0x5D : UInt8) ≠ x) (none : p.label.find? [0x5D, x] = none) :
    p.written.find? [0x5D, x] =
      (Bytes.find? (0x5D :: (p.lead ++ p.destination ++ p.ending)) [0x5D, x]).map (· + p.close) := by
  rw [LinkParts.written, Bytes.find?_append (by simpa using other), Bytes.find?_skip spelled.opening_free, none]
  simp [LinkParts.close]

/-- In a definition, the pair of a closing bracket and a parenthesis can also stand in the destination. -/
theorem find?_definition (definition : p.form = .definition) (none : p.label.find? (utf8 "](") = none) :
    p.written.find? (utf8 "](") =
      (p.destination.find? (utf8 "](")).map (· + (p.close + 1 + p.lead.length)) := by
  have found := find?_of_label_none spelled (by decide : (0x5D : UInt8) ≠ 0x28) none
  obtain ⟨form, opening, label, lead, destination, ending⟩ := p
  cases definition
  cases spelled.leads with
  | @definition blanks t blank =>
      have free : (0x5D : UInt8) ∉ 0x3A :: blanks := by
        intro member
        obtain colon | member := List.mem_cons.mp member
        · cases colon
        · exact absurd (blank _ member) (by decide)
      have skipped : Bytes.find? (0x5D :: (0x3A :: blanks ++ destination ++ [])) [0x5D, 0x28] =
          (destination.find? [0x5D, 0x28]).map (· + (blanks.length + 2)) := by
        have bracket : Bytes.find? (0x5D :: (0x3A :: blanks ++ destination ++ [])) [0x5D, 0x28] =
            (Bytes.find? (0x3A :: blanks ++ destination ++ []) [0x5D, 0x28]).map (· + 1) := by
          rw [Bytes.find?, if_neg (by simp [List.isPrefixOf])]
        rw [bracket, List.append_nil, Bytes.find?_skip free, Option.map_map]
        rfl
      refine found.trans ?_
      rw [skipped, Option.map_map]
      congr 1
      funext i
      simp only [Function.comp, LinkParts.close, List.length_cons]
      omega

/-- A label that misleads has the URL start in it. -/
theorem start_misled (misled : p.Misleads) :
    p.opening.length ≤ (destination p.written).start ∧ (destination p.written).start ≤ p.close := by
  have plain := startsWith_written spelled
  cases held : p.label.find? (utf8 "](") with
  | some j =>
      obtain ⟨found, early⟩ := find?_of_label spelled (by decide) held
      have bounds := start_le_of_paren plain found early getElem?_close
      omega
  | none =>
      obtain paren | ⟨definition, colon, free⟩ := misled
      · rw [Bytes.contains, held] at paren
        cases paren
      obtain ⟨j, held'⟩ := Option.isSome_iff_exists.mp colon
      obtain ⟨found, early⟩ := find?_of_label spelled (by decide) held'
      have none : p.written.find? (utf8 "](") = none := by
        rw [find?_definition spelled definition held, Option.map_eq_none_iff]
        exact Option.not_isSome_iff_eq_none.mp (by simpa [Bytes.contains] using free)
      have le := skipBlanks_le early getElem?_close (by decide)
      have ge : p.opening.length + j + 2 ≤ skipBlanks p.written (p.opening.length + j + 2) := Nat.le_add_right _ _
      rw [destination_of_colon plain none found]
      simp only
      omega

/-- In angle brackets, the URL starts behind the opening one and goes to the first closing one. -/
theorem destination_of_angles (angles : p.form = .angles) (none : p.label.find? (utf8 "](") = none) :
    destination p.written =
      ⟨p.target.start, p.target.start + (Bytes.indexOf? p.destination 0x3E).getD p.destination.length⟩ := by
  have plain := startsWith_written spelled
  have found := find?_of_label_none spelled (by decide : (0x5D : UInt8) ≠ 0x28) none
  obtain ⟨form, opening, label, lead, destination, ending⟩ := p
  cases angles
  cases spelled.leads with
  | @angles blanks t title blank =>
      have text : LinkParts.written ⟨.angles, opening, label, 0x28 :: (blanks ++ [0x3C]), destination,
          0x3E :: (title ++ [0x29])⟩ = (opening ++ label) ++ 0x5D :: 0x28 :: (blanks ++ 0x3C :: (destination ++ 0x3E ::
            (title ++ [0x29]))) := by
        simp [LinkParts.written]
      rw [text] at plain found ⊢
      rw [destination_angles blank plain (found.trans (by simp [LinkParts.close, Bytes.find?, List.isPrefixOf]))]
      simp only [LinkParts.target, LinkParts.close, List.length_cons, List.length_append, List.length_nil,
        Extent.mk.injEq]
      omega

theorem contains_of_parens (parens : p.form = .parens) (none : p.label.find? (utf8 "](") = none) :
    p.target.Contains (destination p.written) := by
  have plain := startsWith_written spelled
  have found := find?_of_label_none spelled (by decide : (0x5D : UInt8) ≠ 0x28) none
  obtain ⟨form, opening, label, lead, t, ending⟩ := p
  cases parens
  cases spelled.leads with
  | parens other closed =>
      have text : LinkParts.written ⟨.parens, opening, label, [0x28], t, [0x29]⟩ =
          (opening ++ label) ++ 0x5D :: 0x28 :: (t ++ [0x29]) := by
        simp [LinkParts.written]
      have whole : 0x28 :: (t ++ 0x29 :: behind) = 0x28 :: (t ++ [0x29]) ++ behind := by simp
      rw [whole] at closed
      have inside : Document.Bracket.paren? (0x28 :: (t ++ [0x29])) = some (t.length + 1) :=
        Document.Bracket.closing?_of_append closed (by simp)
      rw [text] at plain found ⊢
      have contained := contains_parens plain
        (found.trans (by simp [LinkParts.close, Bytes.find?, List.isPrefixOf])) other inside
      simpa [LinkParts.target, LinkParts.close] using contained

/-- The pair that the outline looks for first can stand in the destination of a definition. What it takes then is behind
the pair, and so it is in the destination too. -/
theorem contains_of_pair {j : Nat} (definition : p.form = .definition) (none : p.label.find? (utf8 "](") = none)
    (held : p.destination.find? (utf8 "](") = some j) : p.target.Contains (destination p.written) := by
  have found := find?_definition spelled definition none
  rw [held, Option.map_some] at found
  have start := start_of_paren (startsWith_written spelled) found
  have last := (destination_le p.written).2
  have ge : j + (p.close + 1 + p.lead.length) + 2 ≤ skipBlanks p.written (j + (p.close + 1 + p.lead.length) + 2) :=
    Nat.le_add_right _ _
  have ended : p.ending = [] := by
    have leads := spelled.leads
    rw [definition] at leads
    generalize p.lead = lead, p.destination = t, p.ending = ending at leads
    cases leads
    rfl
  simp only [LinkParts.written, LinkParts.close, LinkParts.target, Extent.Contains, List.length_append,
    List.length_cons, ended, List.length_nil] at last start ge ⊢
  omega

theorem contains_of_definition (definition : p.form = .definition) (clear : ¬ p.Misleads) :
    p.target.Contains (destination p.written) := by
  have none := LinkParts.find?_eq_none_of_clear clear
  cases held : p.destination.find? (utf8 "](") with
  | some j => exact contains_of_pair spelled definition none held
  | none =>
      have colon : p.label.find? (utf8 "]:") = Option.none := by
        refine Option.not_isSome_iff_eq_none.mp fun found => clear (.inr ⟨definition, found, ?_⟩)
        rw [Bytes.contains, held]
        rfl
      have plain := startsWith_written spelled
      have behind := find?_definition spelled definition none
      have found := find?_of_label_none spelled (by decide : (0x5D : UInt8) ≠ 0x3A) colon
      rw [held] at behind
      obtain ⟨form, opening, label, lead, t, ending⟩ := p
      cases definition
      cases spelled.leads with
      | @definition blanks _ blank some word =>
          have text : LinkParts.written ⟨.definition, opening, label, 0x3A :: blanks, t, []⟩ =
              (opening ++ label) ++ 0x5D :: 0x3A :: (blanks ++ t) := by
            simp [LinkParts.written]
          rw [text] at plain found behind ⊢
          rw [destination_definition blank word plain behind
            (found.trans (by simp [LinkParts.close, Bytes.find?, List.isPrefixOf]))]
          simp only [LinkParts.target, LinkParts.close, Extent.Contains, List.length_append, List.length_cons]
          omega

/-- A label that does not mislead has the URL lie in the destination. -/
theorem contains_target (clear : ¬ p.Misleads) : p.target.Contains (destination p.written) := by
  have none := LinkParts.find?_eq_none_of_clear clear
  cases form : p.form with
  | parens => exact contains_of_parens spelled form none
  | definition => exact contains_of_definition spelled form clear
  | angles =>
      rw [destination_of_angles spelled form none]
      have le : (Bytes.indexOf? p.destination 0x3E).getD p.destination.length ≤ p.destination.length := by
        cases held : Bytes.indexOf? p.destination 0x3E with
        | none => exact Nat.le_refl _
        | some i => exact Nat.le_of_lt (Document.Inline.indexOf?_lt held)
      exact ⟨Nat.le_refl _, Nat.add_le_add_left le _⟩

/-- In angle brackets, the URL is all of the destination exactly if the label does not mislead and the destination has
no closing angle bracket, not even an escaped one. -/
theorem eq_target_iff (angles : p.form = .angles) :
    destination p.written = p.target ↔ ¬ p.Misleads ∧ 0x3E ∉ p.destination := by
  constructor
  · intro whole
    have clear : ¬ p.Misleads := by
      intro misled
      have le := (start_misled spelled misled).2
      rw [whole, LinkParts.target] at le
      simp only at le
      omega
    refine ⟨clear, fun member => ?_⟩
    rw [destination_of_angles spelled angles (LinkParts.find?_eq_none_of_clear clear)] at whole
    have stop := congrArg Extent.stop whole
    cases first : Bytes.indexOf? p.destination 0x3E with
    | none => exact absurd (List.findIdx?_eq_none_iff.mp first 0x3E member) (by decide)
    | some i =>
        have inside := Document.Inline.indexOf?_lt first
        simp only [LinkParts.target, first, Option.getD_some] at stop
        omega
  · rintro ⟨clear, free⟩
    rw [destination_of_angles spelled angles (LinkParts.find?_eq_none_of_clear clear), Bytes.indexOf?_eq_none free]
    rfl

end

/-! ## The links of an outline -/

/-- A link of an outline as the scan has read it. -/
structure AsScanned (text : Bytes) (l : Link) (p : LinkParts) : Prop where
  /-- The scan has come to where the outline shows the link, and has matched these parts there. -/
  visited : ∃ before behind, Document.Visits text ⟨before, l.extent.start, p.written ++ behind⟩ ∧
    Document.Inline.link? before (p.written ++ behind) = some p.written.length ∧ p.Spelled before behind
  written : l.extent.of text = p.written
  stop : l.extent.stop = l.extent.start + p.written.length

/-- A link that does not start with an angle bracket has a label. -/
theorem exists_asScanned {text : Bytes} {l : Link} (member : l ∈ (Outline.ofText text).links)
    (other : text[l.extent.start]? ≠ some 0x3C) : ∃ p, l.AsScanned text p ∧
      l.url = ⟨l.extent.start + (destination p.written).start, l.extent.start + (destination p.written).stop⟩ := by
  obtain ⟨n, among, rfl⟩ := List.mem_map.mp member
  obtain ⟨node, kind⟩ := List.mem_filter.mp among
  have kind : n.kind = .link := eq_of_beq kind
  obtain ⟨place, visits, found⟩ := (Document.mem_nodes_iff (.inr kind)).mp node
  cases found with
  | directive => cases kind
  | @autolink before pos length t found =>
      obtain ⟨behind, same⟩ := visits.isIn
      refine absurd ?_ other
      change text[pos]? = some 0x3C
      rw [← List.head?_drop, ← same]
      rfl
  | @link before pos length b t starts found =>
      obtain ⟨p, behind, split, rfl, spelled⟩ := Document.Inline.link?_spelled starts found
      rw [split] at visits found
      have written : text.slice pos (pos + p.written.length) = p.written := by
        have sliced := visits.isIn.slice (n := p.written.length) (by simp)
        rw [List.take_left] at sliced
        exact sliced
      refine ⟨p, ⟨⟨before, behind, visits, found, spelled⟩, written, rfl⟩, ?_⟩
      have whole : (Document.ofText text).text = text := rfl
      simp only [ofNode, Document.Node.extent, whole, written]

/-- The URL of a link with a label lies in the destination that the scan has matched, unless the label misleads: it then
starts in the label. A destination in angle brackets is the URL as a whole unless it has such a bracket itself. -/
theorem url_in_destination (text : Bytes) :
    ∀ l ∈ (Outline.ofText text).links, text[l.extent.start]? ≠ some 0x3C → ∃ p : LinkParts, l.AsScanned text p ∧
      let label : Extent := ⟨l.extent.start + p.opening.length, l.extent.start + p.close⟩
      let target : Extent := ⟨l.extent.start + p.target.start, l.extent.start + p.target.stop⟩
      (target.Contains l.url ↔ ¬ p.Misleads) ∧
      (p.form = .angles → (l.url = target ↔ ¬ p.Misleads ∧ 0x3E ∉ p.destination)) ∧
      (p.Misleads → label.start ≤ l.url.start ∧ l.url.start ≤ label.stop) := by
  intro l member other
  obtain ⟨p, scanned, url⟩ := exists_asScanned member other
  obtain ⟨before, behind, -, -, spelled⟩ := scanned.visited
  refine ⟨p, scanned, ⟨fun contained misled => ?_, fun clear => ?_⟩, fun angles => ?_, fun misled => ?_⟩
  · have early := (start_misled spelled misled).2
    have late := contained.1
    rw [url, LinkParts.target] at late
    simp only at late
    omega
  · obtain ⟨start, stop⟩ := contains_target spelled clear
    rw [url]
    exact ⟨Nat.add_le_add_left start _, Nat.add_le_add_left stop _⟩
  · rw [← eq_target_iff spelled angles, url, Extent.mk.injEq, Nat.add_left_cancel_iff, Nat.add_left_cancel_iff,
      ← Extent.mk.injEq]
  · rw [url]
    obtain ⟨start, stop⟩ := start_misled spelled misled
    exact ⟨Nat.add_le_add_left start _, Nat.add_le_add_left stop _⟩

/-- A destination in angle brackets, with a blank in it and a title behind it. -/
theorem url_in_destination_angles :
    let text := utf8 "x [a](<b c> d)"
    let l : Link := ⟨⟨2, 14⟩, ⟨7, 10⟩⟩
    l ∈ (Outline.ofText text).links ∧ text[l.extent.start]? ≠ some 0x3C ∧ ∃ p : LinkParts, l.AsScanned text p ∧
      (p.form = .angles → (l.url = ⟨2 + p.target.start, 2 + p.target.stop⟩ ↔ ¬ p.Misleads ∧ 0x3E ∉ p.destination)) := by
  intro text l
  have member : l ∈ (Outline.ofText text).links :=
    List.mem_of_getElem? (show (Outline.ofText text).links[0]? = some l by decide +kernel)
  have other : text[l.extent.start]? ≠ some 0x3C := by decide +kernel
  obtain ⟨p, scanned, -, whole, -⟩ := url_in_destination text l member other
  exact ⟨member, other, p, scanned, whole⟩

/-- An image in a label, a pair of a bracket and a colon in the label of a definition, and an escaped angle bracket. -/
theorem url_outside_destination :
    (∃ p : LinkParts, p.written = utf8 "[![a](b)](c)" ∧ p.Spelled none [] ∧ p.target = ⟨10, 11⟩ ∧
      (Outline.ofText p.written).links = [⟨⟨0, 12⟩, ⟨6, 7⟩⟩]) ∧
    (∃ p : LinkParts, p.written = utf8 "[[x]:y]: z" ∧ p.Spelled none [] ∧ p.target = ⟨9, 10⟩ ∧
      (Outline.ofText p.written).links = [⟨⟨0, 10⟩, ⟨5, 8⟩⟩]) ∧
    ∃ p : LinkParts, p.written = utf8 "[a](<b\\>c>)" ∧ p.Spelled none [] ∧ p.target = ⟨5, 9⟩ ∧
      (Outline.ofText p.written).links = [⟨⟨0, 11⟩, ⟨5, 7⟩⟩] := by
  refine ⟨⟨⟨.parens, utf8 "[", utf8 "![a](b)", utf8 "(", utf8 "c", utf8 ")"⟩, rfl, ?_, rfl, by decide +kernel⟩,
    ⟨⟨.definition, utf8 "[", utf8 "[x]:y", utf8 ": ", utf8 "z", []⟩, rfl, ?_, rfl, by decide +kernel⟩,
    ⟨.angles, utf8 "[", utf8 "a", utf8 "(<", utf8 "b\\>c", utf8 ">)"⟩, rfl, ?_, rfl, by decide +kernel⟩
  · exact ⟨.inl rfl, by decide +kernel, .parens (by decide) (by decide +kernel), nofun⟩
  · have blank : ∀ b ∈ utf8 " ", Bytes.isBlankByte b = true := by decide +kernel
    exact ⟨.inl rfl, by decide +kernel, .definition blank (by decide) (by decide +kernel) nofun, fun _ => .inl rfl⟩
  · have ended : Bytes.indexOf? (utf8 "" ++ [0x29]) 0x29 = some (utf8 "").length := by decide
    have blank : ∀ b ∈ utf8 "", Bytes.isBlankByte b = true := nofun
    exact ⟨.inl rfl, by decide +kernel, .angles blank (by decide +kernel) ended, nofun⟩

end Link

end Colloquy
