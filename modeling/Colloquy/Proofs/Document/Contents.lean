import Colloquy.Proofs.Document.Exchange

/-! # Contents that may be exchanged

The contents of a directive stand between its brackets. Other contents may take their place when the brackets in them
close each other and nothing in front of the directive waits for a byte of theirs: then they have no meaning to any
search that starts in front of the directive, and neither had the contents before.
-/

namespace Colloquy.Document

namespace Bracket

variable {left right : UInt8}

/-- Brackets that close each other leave as many open around them as there were. -/
theorem closingFrom_closed {escaped : Bool} {depth outer : Int} {pos : Nat} {t : Bytes} (deep : 1 ≤ depth)
    (around : 1 ≤ outer) (closed : closingFrom left right escaped depth pos (t ++ [right]) = some (pos + t.length))
    (behind : Bytes) : closingFrom left right escaped (depth + outer) pos (t ++ right :: behind) =
      closingFrom left right false outer (pos + t.length + 1) behind := by
  induction t generalizing escaped depth pos with
  | nil =>
      cases escaped with
      | true => cases closed
      | false =>
          simp only [List.nil_append, closingFrom] at closed ⊢
          by_cases escape : (right == backslash) = true
          · rw [if_pos escape] at closed
            cases closed
          by_cases opens : (right == left) = true
          · rw [if_neg escape, if_pos opens] at closed
            cases closed
          by_cases last : (depth == 1) = true
          · obtain rfl : depth = 1 := by simpa using last
            have more : ((1 + outer == 1) : Bool) ≠ true := by simp; omega
            rw [if_neg escape, if_neg opens, if_pos (by simp), if_neg more, show (1 + outer - 1 : Int) = outer by omega]
            rfl
          · rw [if_neg escape, if_neg opens, if_pos (by simp), if_neg last] at closed
            cases closed
  | cons b t ih =>
      have further : pos + (b :: t).length = pos + 1 + t.length := by
        rw [List.length_cons]
        omega
      rw [further] at closed ⊢
      cases escaped with
      | true => exact ih deep closed
      | false =>
          simp only [List.cons_append, closingFrom] at closed ⊢
          by_cases escape : (b == backslash) = true
          · rw [if_pos escape] at closed ⊢
            exact ih deep closed
          by_cases opens : (b == left) = true
          · rw [if_neg escape, if_pos opens] at closed ⊢
            have deeper := ih (by omega : 1 ≤ depth + 1) closed
            rwa [Int.add_right_comm] at deeper
          by_cases closes : (b == right) = true
          · rw [if_neg escape, if_neg opens, if_pos closes] at closed ⊢
            by_cases last : (depth == 1) = true
            · rw [if_pos last, Option.some.injEq] at closed
              omega
            · have more : depth ≠ 1 := by simpa using last
              have open' : ((depth + outer == 1) : Bool) ≠ true := by simp; omega
              rw [if_neg last] at closed
              have shallower := ih (by omega : 1 ≤ depth - 1) closed
              rw [show depth - 1 + outer = depth + outer - 1 by omega] at shallower
              rw [if_neg open']
              exact shallower
          · rw [if_neg escape, if_neg opens, if_neg closes] at closed ⊢
            exact ih deep closed

/-- A part without these brackets leaves as many open as it finds, when its last byte is no backslash. -/
theorem neutral_of_free {t : Bytes} {last : UInt8} (free : ∀ b ∈ t ++ [last], b ≠ left ∧ b ≠ right)
    (plain : last ≠ backslash) : Neutral left right (t ++ [last]) := by
  intro escaped depth pos behind _
  rw [List.append_assoc, List.length_append, ← Nat.add_assoc]
  induction t generalizing escaped pos with
  | nil =>
      cases escaped with
      | true => rfl
      | false =>
          refine closingFrom_passed (fun b member => ⟨?_, free b member⟩) _ _ _
          rwa [List.mem_singleton.mp member]
  | cons b t ih =>
      obtain ⟨⟨opens, closes⟩, free⟩ := List.forall_mem_cons.mp free
      have further : pos + (b :: t).length = pos + 1 + t.length := by
        rw [List.length_cons]
        omega
      rw [further]
      cases escaped with
      | true => exact ih free false (pos + 1)
      | false =>
          rw [List.cons_append, closingFrom]
          by_cases escape : (b == backslash) = true
          · rw [if_pos escape]
            exact ih free true (pos + 1)
          · rw [if_neg escape, if_neg (by simpa using opens), if_neg (by simpa using closes)]
            exact ih free false (pos + 1)

end Bracket

namespace Inline

theorem angleFrom_free {t : Bytes} {last : UInt8} (free : ∀ b ∈ t ++ [last], b ≠ 0x3E ∧ b ≠ Bytes.lf)
    (plain : last ≠ Bracket.backslash) (escaped : Bool) (pos : Nat) (behind : Bytes) :
    angleFrom escaped pos (t ++ [last] ++ behind) = angleFrom false (pos + (t ++ [last]).length) behind := by
  rw [List.append_assoc, List.length_append, ← Nat.add_assoc]
  induction t generalizing escaped pos with
  | nil =>
      obtain ⟨closes, ends⟩ := free last (by simp)
      cases escaped with
      | true => rfl
      | false =>
          rw [List.nil_append, List.singleton_append, angleFrom, if_neg (by simpa using plain),
            if_neg (by simpa using closes), if_neg (by simpa using ends)]
          rfl
  | cons b t ih =>
      obtain ⟨⟨closes, ends⟩, free⟩ := List.forall_mem_cons.mp free
      have further : pos + (b :: t).length = pos + 1 + t.length := by
        rw [List.length_cons]
        omega
      rw [further]
      cases escaped with
      | true => exact ih free false (pos + 1)
      | false =>
          rw [List.cons_append, angleFrom]
          by_cases escape : (b == Bracket.backslash) = true
          · rw [if_pos escape]
            exact ih free true (pos + 1)
          · rw [if_neg escape, if_neg (by simpa using closes), if_neg (by simpa using ends)]
            exact ih free false (pos + 1)

theorem autolinkEnd_move (k pos : Nat) (t : Bytes) : autolinkEnd (pos + k) t = (autolinkEnd pos t).map (· + k) := by
  induction t generalizing pos with
  | nil => rfl
  | cons b t ih =>
      rw [autolinkEnd, autolinkEnd, Nat.add_right_comm, ih]
      split
      · rfl
      · split <;> rfl

/-- An autolink is given up at a space, and else it goes on behind a part that does not end it. -/
theorem autolinkEnd_free {t : Bytes} (free : ∀ b ∈ t, b ≠ 0x3C ∧ b ≠ 0x3E) (pos : Nat) (behind : Bytes) :
    autolinkEnd pos (t ++ behind) =
      if ∃ b ∈ t, Bytes.isSpaceByte b = true then none else autolinkEnd (pos + t.length) behind := by
  induction t generalizing pos with
  | nil => simp
  | cons b t ih =>
      obtain ⟨⟨opens, closes⟩, free⟩ := List.forall_mem_cons.mp free
      rw [List.cons_append, autolinkEnd, if_neg (by simpa using closes)]
      by_cases space : Bytes.isSpaceByte b = true
      · simp [space]
      · simp [space, opens, ih free, Nat.add_comm t.length, ← Nat.add_assoc]

/-- Whether the contents `c` of a directive may be exchanged for `n` when `front` stands before the directive in its
paragraph. The brackets in `n` close each other, so the directive ends behind `n`; and where a byte in front may start a
search for a closing byte, `c` and `n` have no part in it. -/
structure Fits (front c n : Bytes) : Prop where
  brackets : Bracket.square? (0x5B :: (n ++ [0x5D])) = some (n.length + 1)
  line : Bytes.lf ∉ n
  code : 0x60 ∈ front → 0x60 ∉ c ∧ 0x60 ∉ n
  paren : 0x28 ∈ front → ∀ b ∈ c ++ n, b ≠ 0x28 ∧ b ≠ 0x29
  brace : 0x7B ∈ front → ∀ b ∈ c ++ n, b ≠ 0x7B ∧ b ≠ 0x7D
  angle : 0x3C ∈ front → (∀ b ∈ c ++ n, b ≠ 0x3C ∧ b ≠ 0x3E) ∧ Bytes.lf ∉ c ∧
    ((∃ b ∈ c, Bytes.isSpaceByte b = true) → ∃ b ∈ n, Bytes.isSpaceByte b = true)

instance (front c n : Bytes) : Decidable (Fits front c n) :=
  let _ (x y : UInt8) : Decidable (∀ b ∈ c ++ n, b ≠ x ∧ b ≠ y) := List.decidableBAll _ _
  let _ (t : Bytes) : Decidable (∃ b ∈ t, Bytes.isSpaceByte b = true) := List.decidableBEx _ _
  let _ : Decidable (0x60 ∈ front → 0x60 ∉ c ∧ 0x60 ∉ n) := inferInstance
  let _ : Decidable (0x28 ∈ front → ∀ b ∈ c ++ n, b ≠ 0x28 ∧ b ≠ 0x29) := inferInstance
  let _ : Decidable (0x7B ∈ front → ∀ b ∈ c ++ n, b ≠ 0x7B ∧ b ≠ 0x7D) := inferInstance
  let _ : Decidable (0x3C ∈ front → (∀ b ∈ c ++ n, b ≠ 0x3C ∧ b ≠ 0x3E) ∧ Bytes.lf ∉ c ∧
    ((∃ b ∈ c, Bytes.isSpaceByte b = true) → ∃ b ∈ n, Bytes.isSpaceByte b = true)) := inferInstance
  decidable_of_iff (_ ∧ _ ∧ _ ∧ _ ∧ _ ∧ _)
    ⟨fun ⟨brackets, line, code, paren, brace, angle⟩ => ⟨brackets, line, code, paren, brace, angle⟩,
      fun ⟨brackets, line, code, paren, brace, angle⟩ => ⟨brackets, line, code, paren, brace, angle⟩⟩

/-- A directive up to its closing bracket, behind the colon. -/
def bracketed (name c : Bytes) : Bytes := name ++ 0x5B :: (c ++ [0x5D])

theorem nameByte_plain (b : UInt8) (inside : isNameByte b = true) :
    b ≠ 0x60 ∧ (b ≠ 0x28 ∧ b ≠ 0x29) ∧ (b ≠ 0x7B ∧ b ≠ 0x7D) ∧ (b ≠ 0x3C ∧ b ≠ 0x3E) ∧ b ≠ Bytes.lf ∧
      Bytes.isSpaceByte b = false ∧ b ≠ Bracket.backslash ∧ b ≠ 0x5B ∧ b ≠ 0x5D := by
  have space : Bytes.isSpaceByte b = false := by
    simp [Bytes.isSpaceByte, Bytes.ne_of_class (c := Bytes.space) inside rfl,
      Bytes.ne_of_class (c := Bytes.tab) inside rfl, Bytes.ne_of_class (c := Bytes.lf) inside rfl,
      Bytes.ne_of_class (c := Bytes.cr) inside rfl]
  refine ⟨?_, ⟨?_, ?_⟩, ⟨?_, ?_⟩, ⟨?_, ?_⟩, ?_, space, ?_, ?_, ?_⟩
  all_goals exact Bytes.ne_of_class inside rfl

section

variable {front name c n : Bytes}

theorem not_mem_bracketed {b : UInt8} (named : IsName name) (other : isNameByte b = false ∧ b ≠ 0x5B ∧ b ≠ 0x5D)
    (free : b ∉ c) : b ∉ bracketed name c := by
  intro member
  simp only [bracketed, List.mem_append, List.mem_cons, List.not_mem_nil, or_false] at member
  obtain inside | rfl | inside | rfl := member
  · exact absurd (named.bytes b inside) (by simp [other.1])
  · exact other.2.1 rfl
  · exact free inside
  · exact other.2.2 rfl

theorem neutral_bracketed {left right : UInt8} (named : IsName name)
    (ll : left ≠ 0x3A ∧ isNameByte left = false ∧ left ≠ 0x5B ∧ left ≠ 0x5D)
    (rr : right ≠ 0x3A ∧ isNameByte right = false ∧ right ≠ 0x5B ∧ right ≠ 0x5D)
    (free : ∀ b ∈ c, b ≠ left ∧ b ≠ right) : Bracket.Neutral left right (0x3A :: bracketed name c) := by
  have leftFree := not_mem_bracketed named ll.2 fun member => (free left member).1 rfl
  have rightFree := not_mem_bracketed named rr.2 fun member => (free right member).2 rfl
  have parts : 0x3A :: bracketed name c = (0x3A :: (name ++ 0x5B :: c)) ++ [0x5D] := by simp [bracketed]
  rw [parts]
  refine Bracket.neutral_of_free ?_ (by decide)
  rw [← parts]
  refine List.forall_mem_cons.mpr ⟨⟨ll.1.symm, rr.1.symm⟩, fun b member => ⟨?_, ?_⟩⟩
  · rintro rfl
    exact leftFree member
  · rintro rfl
    exact rightFree member

theorem neutral_square (named : IsName name) (closed : Bracket.square? (0x5B :: (c ++ [0x5D])) = some (c.length + 1)) :
    Bracket.Neutral 0x5B 0x5D (0x3A :: bracketed name c) := by
  intro escaped depth pos behind deep
  rw [Bracket.square?, Bracket.closing?_cons (by decide), Nat.add_comm] at closed
  have first : Bracket.closingFrom 0x5B 0x5D escaped depth pos (0x3A :: (bracketed name c ++ behind)) =
      Bracket.closingFrom 0x5B 0x5D false depth (pos + 1) (bracketed name c ++ behind) := by
    cases escaped <;> rfl
  have free : ∀ b ∈ name, b ≠ Bracket.backslash ∧ b ≠ 0x5B ∧ b ≠ 0x5D := fun b member => by
    obtain ⟨-, -, -, -, -, -, plain⟩ := nameByte_plain b (named.bytes b member)
    exact plain
  have opened (t : Bytes) (pos : Nat) : Bracket.closingFrom 0x5B 0x5D false depth pos (0x5B :: t) =
      Bracket.closingFrom 0x5B 0x5D false (1 + depth) (pos + 1) t := by
    rw [Int.add_comm]
    rfl
  rw [List.cons_append, first]
  have parts : bracketed name c ++ behind = name ++ (0x5B :: (c ++ 0x5D :: behind)) := by simp [bracketed]
  rw [parts, Bracket.closingFrom_passed free, opened]
  -- The brackets around the contents are closed wherever they lie.
  have moved : Bracket.closingFrom 0x5B 0x5D false 1 (pos + 1 + name.length + 1) (c ++ [0x5D]) =
      some (pos + 1 + name.length + 1 + c.length) := by
    rw [Nat.add_comm (pos + 1 + name.length), Bracket.closingFrom_move, closed, Option.map_some]
    congr 1
    omega
  rw [Bracket.closingFrom_closed (Int.le_refl 1) deep moved behind]
  congr 1
  simp only [bracketed, List.length_cons, List.length_append, List.length_nil]
  omega

theorem contained_bracketed (named : IsName name)
    (closed : Bracket.square? (0x5B :: (c ++ [0x5D])) = some (c.length + 1)) (code : 0x60 ∈ front → 0x60 ∉ c)
    (paren : 0x28 ∈ front → ∀ b ∈ c, b ≠ 0x28 ∧ b ≠ 0x29) (brace : 0x7B ∈ front → ∀ b ∈ c, b ≠ 0x7B ∧ b ≠ 0x7D)
    (angle : 0x3C ∈ front → ∀ b ∈ c, b ≠ 0x3E ∧ b ≠ Bytes.lf) : Contained front (bracketed name c) where
  letter := by
    obtain ⟨b, first, letter⟩ := named.letter
    exact ⟨b, by simp [bracketed, Option.mem_def.mp first], letter⟩
  square := neutral_square named closed
  code here := not_mem_bracketed named (by decide) (code here)
  paren here := by
    refine ⟨not_mem_bracketed named (by decide) fun member => (paren here _ member).2 rfl, ?_⟩
    exact neutral_bracketed named (by decide) (by decide) (paren here)
  brace here := neutral_bracketed named (by decide) (by decide) (brace here)
  angle here escaped pos behind := by
    have free : ∀ b ∈ (0x3A :: (name ++ 0x5B :: c)) ++ [0x5D], b ≠ 0x3E ∧ b ≠ Bytes.lf := by
      intro b member
      simp only [List.mem_append, List.mem_cons, List.not_mem_nil, or_false] at member
      obtain (rfl | inside | rfl | inside) | rfl := member
      · decide
      · obtain ⟨-, -, -, ⟨-, closes⟩, ends, -⟩ := nameByte_plain b (named.bytes b inside)
        exact ⟨closes, ends⟩
      · decide
      · exact angle here b inside
      · decide
    have passed := angleFrom_free free (by decide) escaped pos behind
    have parts : (0x3A :: (name ++ 0x5B :: c)) ++ [0x5D] = 0x3A :: bracketed name c := by simp [bracketed]
    rwa [parts, List.length_cons, Nat.add_comm _ 1, ← Nat.add_assoc] at passed

theorem Fits.exchangeable (fits : Fits front c n) (named : IsName name)
    (closed : Bracket.square? (0x5B :: (c ++ [0x5D])) = some (c.length + 1)) :
    Exchangeable front (bracketed name c) (bracketed name n) where
  old := by
    refine contained_bracketed named closed (fun here => (fits.code here).1) (fun here b member => ?_)
      (fun here b member => ?_) fun here b member => ?_
    · exact fits.paren here b (List.mem_append_left _ member)
    · exact fits.brace here b (List.mem_append_left _ member)
    · obtain ⟨free, line, -⟩ := fits.angle here
      exact ⟨(free b (List.mem_append_left _ member)).2, fun same => line (same ▸ member)⟩
  new := by
    refine contained_bracketed named fits.brackets (fun here => (fits.code here).2) (fun here b member => ?_)
      (fun here b member => ?_) fun here b member => ?_
    · exact fits.paren here b (List.mem_append_right _ member)
    · exact fits.brace here b (List.mem_append_right _ member)
    · obtain ⟨free, -, -⟩ := fits.angle here
      exact ⟨(free b (List.mem_append_right _ member)).2, fun same => fits.line (same ▸ member)⟩
  autolink here pos pos' behind none := by
    obtain ⟨free, -, spaces⟩ := fits.angle here
    have passed {z : Bytes} (free : ∀ b ∈ z, b ≠ 0x3C ∧ b ≠ 0x3E) (pos : Nat) :
        autolinkEnd pos (bracketed name z ++ behind) = if ∃ b ∈ z, Bytes.isSpaceByte b = true then Option.none
          else (autolinkEnd 0 behind).map (· + (pos + (bracketed name z).length)) := by
      have whole : ∀ b ∈ bracketed name z, (b ≠ 0x3C ∧ b ≠ 0x3E) ∧ (Bytes.isSpaceByte b = true → b ∈ z) := by
        intro b member
        simp only [bracketed, List.mem_append, List.mem_cons, List.not_mem_nil, or_false] at member
        obtain inside | rfl | inside | rfl := member
        · obtain ⟨-, -, -, other, -, space, -⟩ := nameByte_plain b (named.bytes b inside)
          exact ⟨other, fun same => by rw [space] at same; cases same⟩
        · exact ⟨by decide, fun space => absurd space (by decide)⟩
        · exact ⟨free b inside, fun _ => inside⟩
        · exact ⟨by decide, fun space => absurd space (by decide)⟩
      have spaces : (∃ b ∈ bracketed name z, Bytes.isSpaceByte b = true) ↔ ∃ b ∈ z, Bytes.isSpaceByte b = true := by
        constructor
        · rintro ⟨b, member, space⟩
          exact ⟨b, (whole b member).2 space, space⟩
        · rintro ⟨b, member, space⟩
          exact ⟨b, by simp [bracketed, member], space⟩
      rw [autolinkEnd_free (fun b member => (whole b member).1), ← autolinkEnd_move, Nat.zero_add]
      simp only [spaces]
    rw [passed fun b member => free b (List.mem_append_left _ member)] at none
    rw [passed fun b member => free b (List.mem_append_right _ member)]
    by_cases space : ∃ b ∈ n, Bytes.isSpaceByte b = true
    · rw [if_pos space]
    · rw [if_neg (mt spaces space), Option.map_eq_none_iff] at none
      rw [if_neg space, none]
      rfl

end

end Inline

end Colloquy.Document
