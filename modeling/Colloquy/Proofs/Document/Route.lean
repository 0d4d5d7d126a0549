import Colloquy.Proofs.Document.Exchange
import Colloquy.Proofs.Document.Place

/-! # The way to a part of a stretch

The scan comes to a part over places in front of it. Nothing that it does there looks at the part, when the part may be
exchanged: it passes the same bytes, finds the same constructs and goes into the same directives. So it comes to what
stands in the place of the part over the same places.
-/

namespace Colloquy.Document

namespace Inline

/-! ## Going round a place -/

section

variable {p q r : Place}

/-- What is left at the next place stands in what is left at this one, behind some bytes. -/
theorem Next.around (next : Next p q) (some : q.rest ≠ []) :
    ∃ u w, u ≠ [] ∧ p.rest = u ++ (q.rest ++ w) ∧ q.pos = p.pos + u.length := by
  have drop {b : UInt8} {t : Bytes} {n : Nat} (pos : 0 < n) (le : n ≤ t.length + 1) :
      ∃ u w, u ≠ [] ∧ b :: t = u ++ (t.drop (n - 1) ++ w) ∧ u.length = n := by
    refine ⟨b :: t.take (n - 1), [], List.cons_ne_nil _ _, by simp, ?_⟩
    rw [List.length_cons, List.length_take_of_le (by omega), Nat.sub_add_cancel pos]
  cases next with
  | @escape before pos t =>
      cases t with
      | nil => exact absurd rfl some
      | cons c t => exact ⟨[Bracket.backslash, c], [], by simp, by simp, rfl⟩
  | @code before pos n t length =>
      have bounds := codeSpanLength_bounds t
      obtain ⟨u, w, nonempty, split, count⟩ := drop (b := 0x60) (length ▸ bounds.1) (length ▸ bounds.2)
      exact ⟨u, w, nonempty, split, by rw [count]⟩
  | @byte before pos b t => exact ⟨[b], [], by simp, by simp, rfl⟩
  | @behind before pos n b t m found stop =>
      have bounds := found.bounds
      simp only [List.length_cons] at bounds
      obtain ⟨u, w, nonempty, split, count⟩ := drop (b := b) (t := t) (n := n) (by omega) (by omega)
      exact ⟨u, w, nonempty, split, by rw [count]⟩
  | @inside before pos t d found =>
      obtain ⟨-, tail, spelled⟩ := directiveAt?_spelled found
      refine ⟨0x3A :: d.name ++ [0x5B], 0x5D :: tail, by simp, by simp [spelled.text], ?_⟩
      simp only [List.length_append, List.length_cons, List.length_nil]
      omega

theorem Reaches.around (reaches : Reaches p r) (some : r.rest ≠ []) :
    ∃ u w, p.rest = u ++ (r.rest ++ w) ∧ r.pos = p.pos + u.length := by
  induction reaches using Relation.ReflTransGen.head_induction_on with
  | refl => exact ⟨[], [], by simp, rfl⟩
  | @head p q next _ ih =>
      obtain ⟨u, w, inner, pos⟩ := ih
      obtain ⟨u', w', -, outer, pos'⟩ := next.around (by simp [inner, some])
      refine ⟨u' ++ u, w ++ w', by simp [outer, inner], ?_⟩
      rw [pos, pos', List.length_append, Nat.add_assoc]

end

/-! ## In front of the part -/

section

variable {front u y y' : Bytes} (exchangeable : Exchangeable front y y') (within : u ⊆ front) {before : Option UInt8}
  {pos : Nat} {w : Bytes}

include exchangeable within

/-- What is found in front of the part is found again. -/
theorem Finds.exchange {m : Node} (found : Finds ⟨before, pos, u ++ 0x3A :: (y ++ w)⟩ m)
    (earlier : m.stop ≤ pos + u.length) : Finds ⟨before, pos, u ++ 0x3A :: (y' ++ w)⟩ m := by
  cases u with
  | nil =>
      have bounds := found.bounds
      simp only [List.length_nil] at earlier bounds
      omega
  | cons b u =>
      have later : u ⊆ front := fun c member => within (List.mem_cons_of_mem _ member)
      have first : b ∈ front := within List.mem_cons_self
      simp only [List.cons_append, List.length_cons] at found earlier ⊢
      cases found with
      | directive found =>
          exact .directive (directiveAt?_exchange_before exchangeable later found (by simp only at earlier; omega))
      | link starts found =>
          refine .link ((startsLink_exchange b u _ _).trans starts) ?_
          exact (agree_link? exchangeable later w starts).some _ (by simp only at earlier; omega) found
      | autolink found =>
          exact .autolink ((agree_autolink? exchangeable w first).some _ (by simp only at earlier; omega) found)

/-- Where nothing is found in front of the part, nothing is found afterwards either. -/
theorem exists_finds_of_exchange {b : UInt8} {m' : Node}
    (found : Finds ⟨before, pos, b :: (u ++ 0x3A :: (y' ++ w))⟩ m') (first : b ∈ front) :
    ∃ m, Finds ⟨before, pos, b :: (u ++ 0x3A :: (y ++ w))⟩ m := by
  cases found with
  | directive found =>
      cases known : directiveAt? before (u ++ 0x3A :: (y ++ w)) with
      | none => rw [directiveAt?_exchange_none exchangeable known] at found; cases found
      | some d => exact ⟨_, .directive known⟩
  | link starts found =>
      have starts := (startsLink_exchange b u (y' ++ w) (y ++ w)).trans starts
      cases known : link? before (b :: (u ++ 0x3A :: (y ++ w))) with
      | none => rw [(agree_link? exchangeable within w starts).none known] at found; cases found
      | some n => exact ⟨_, .link starts known⟩
  | autolink found =>
      cases known : autolink? (u ++ 0x3A :: (y ++ w)) with
      | none => rw [(agree_autolink? exchangeable w first).none known] at found; cases found
      | some n => exact ⟨_, .autolink known⟩

omit exchangeable within in
/-- Some of the bytes in front of the part are passed. -/
theorem drop_before {n : Nat} {v w' : Bytes} (left : (u ++ 0x3A :: (y ++ w)).drop n = v ++ 0x3A :: (y ++ w'))
    (count : v.length + n = u.length) : v = u.drop n ∧ w' = w := by
  rw [List.drop_append_of_le_length (by omega)] at left
  obtain ⟨front, behind⟩ := List.append_inj left (by rw [List.length_drop]; omega)
  exact ⟨front.symm, by simpa using behind.symm⟩

/-- A step in front of the part is taken again. -/
theorem Next.exchange {q : Place} {v w' : Bytes} (next : Next ⟨before, pos, u ++ 0x3A :: (y ++ w)⟩ q)
    (held : q.rest = v ++ 0x3A :: (y ++ w')) (start : q.pos + v.length = pos + u.length) :
    v ⊆ front ∧ Next ⟨before, pos, u ++ 0x3A :: (y' ++ w)⟩ ⟨q.before, q.pos, v ++ 0x3A :: (y' ++ w')⟩ := by
  obtain ⟨around, _, some, -, moved⟩ := next.around (by simp [held])
  have further := List.length_pos_iff.mpr some
  simp only at moved
  cases u with
  | nil =>
      simp only [List.length_nil] at start
      omega
  | cons b u =>
      have later : u ⊆ front := fun c member => within (List.mem_cons_of_mem _ member)
      have first : b ∈ front := within List.mem_cons_self
      simp only [List.cons_append, List.length_cons] at next start ⊢
      -- Where the scan passes some bytes, it passes the same ones again.
      have passed {n : Nat} (left : (u ++ 0x3A :: (y ++ w)).drop (n - 1) = v ++ 0x3A :: (y ++ w')) (some : 0 < n)
          (count : v.length + n = u.length + 1) :
          v ⊆ front ∧ Place.mk (lastOf (b :: (u ++ 0x3A :: (y' ++ w))) n) (pos + n)
              ((u ++ 0x3A :: (y' ++ w)).drop (n - 1)) =
            ⟨lastOf (b :: (u ++ 0x3A :: (y ++ w))) n, pos + n, v ++ 0x3A :: (y' ++ w')⟩ := by
        obtain ⟨rfl, rfl⟩ := drop_before left (by omega)
        refine ⟨List.Subset.trans (List.drop_subset _ _) later, ?_⟩
        rw [lastOf_append (by omega), lastOf_append (by omega), List.drop_append_of_le_length (by omega)]
      cases next with
      | escape =>
          obtain ⟨less, same⟩ := passed (n := 2) held (by decide) (by simp only at start; omega)
          have second (z : Bytes) : lastOf (Bracket.backslash :: (u ++ z)) 2 = (u ++ z).head? :=
            List.head?_eq_getElem?.symm
          rw [second, second] at same
          exact ⟨less, same ▸ .escape⟩
      | @code _ _ n _ length =>
          simp only at held start moved
          have bounds := codeSpanLength_bounds (u ++ 0x3A :: (y ++ w))
          rw [length] at bounds
          obtain ⟨less, same⟩ := passed held bounds.1 (by omega)
          refine ⟨less, same ▸ .code (Eq.trans ?_ length)⟩
          exact codeSpanLength_exchange exchangeable w first (by rw [List.cons_append, length]; omega)
      | byte escape code nothing =>
          obtain ⟨less, same⟩ := passed (n := 1) held (by decide) (by simp only at start; omega)
          refine ⟨less, same ▸ .byte escape code fun m found => ?_⟩
          obtain ⟨m', found⟩ := exists_finds_of_exchange exchangeable later found first
          exact nothing m' found
      | @behind _ _ n _ _ m found stop =>
          simp only at held start moved
          obtain ⟨less, same⟩ := passed held (by omega) (by omega)
          have again := found.exchange (u := b :: u) exchangeable within (by simp only [List.length_cons]; omega)
          exact ⟨less, same ▸ .behind again stop⟩
      | @inside _ _ _ d found =>
          simp only at held start moved
          obtain ⟨-, tail, spelled⟩ := directiveAt?_spelled found
          have around : u = d.name ++ 0x5B :: v := by
            have text : u ++ 0x3A :: (y ++ w) = d.name ++ 0x5B :: v ++ (0x3A :: (y ++ w') ++ 0x5D :: tail) := by
              rw [spelled.text, held]
              simp
            refine (List.append_inj text ?_).1
            simp only [List.length_append, List.length_cons]
            omega
          obtain ⟨d', again, name, inner⟩ := directiveAt?_exchange_inside exchangeable around held found
          refine ⟨?_, ?_⟩
          · rw [around] at later
            exact fun c member => later (List.mem_append_right _ (List.mem_cons_of_mem _ member))
          · rw [← name, ← inner]
            exact .inside again

/-- The scan comes to the part again. -/
theorem Reaches.exchange {p r : Place} {w₀ : Bytes} (reaches : Reaches p r) (target : r.rest = 0x3A :: (y ++ w₀))
    (held : p.rest = u ++ 0x3A :: (y ++ w)) (start : r.pos = p.pos + u.length) :
    Reaches ⟨p.before, p.pos, u ++ 0x3A :: (y' ++ w)⟩ ⟨r.before, r.pos, 0x3A :: (y' ++ w₀)⟩ := by
  induction reaches using Relation.ReflTransGen.head_induction_on generalizing u w with
  | refl =>
      obtain rfl : u = [] := List.length_eq_zero_iff.mp (by omega)
      obtain rfl : w = w₀ := by simpa [target] using held.symm
      exact .refl
  | @head p q next more ih =>
      obtain ⟨v, w', split, same⟩ := Reaches.around more (by simp [target])
      rw [target, List.cons_append, List.append_assoc] at split
      obtain ⟨before, pos, rest⟩ := p
      obtain rfl : rest = u ++ 0x3A :: (y ++ w) := held
      obtain ⟨less, again⟩ := next.exchange exchangeable within split (same.symm.trans start)
      exact .head again (ih less split same)

end

end Inline

end Colloquy.Document
