import Colloquy.Proofs.Outline.Destination

/-! # Exchanging a part of a stretch

A search through a stretch comes to an end in what stands in front of some part, or it goes on into that part. When the
part has no meaning to the search, or closes all brackets that it opens, the search goes on behind it as if nothing had
been there. So two such parts may be exchanged: what is found in front of them stays, and what is not found is not found
afterwards either.
-/

namespace Colloquy.Document

/-- What is found in the first `m` bytes is found again, and where nothing is found, nothing is found again. -/
structure Agree (m : Nat) (found found' : Option Nat) : Prop where
  some : ∀ n ≤ m, found = some n → found' = some n
  none : found = none → found' = none

namespace Agree

variable {m : Nat} {found found' : Option Nat}

theorem refl (m : Nat) (found : Option Nat) : Agree m found found := ⟨fun _ _ => id, id⟩

theorem map_add (agree : Agree m found found') {k l : Nat} (le : l ≤ m + k) :
    Agree l (found.map (· + k)) (found'.map (· + k)) := by
  refine ⟨fun n inside same => ?_, fun same => ?_⟩
  · obtain ⟨n, known, rfl⟩ := Option.map_eq_some_iff.mp same
    rw [agree.some n (by omega) known]
    rfl
  · rw [agree.none (Option.map_eq_none_iff.mp same)]
    rfl

/-- The find lies behind the first `m` bytes, and there is another. -/
theorem of_behind (behind : ∀ n ∈ found, m < n) (same : found = Option.none → found' = Option.none) :
    Agree m found found' := by
  refine ⟨fun n inside known => ?_, same⟩
  have := behind n known
  omega

theorem of_map {f f' : Nat → Nat} (behind : ∀ n, m < f n) (found : Option Nat) :
    Agree m (found.map f) (found.map f') :=
  of_behind (by simpa using fun n _ => behind n) (by simp)

end Agree

/-! ## Brackets -/

namespace Bracket

variable {left right : UInt8} {escaped : Bool} {depth : Int}

/-- A search comes to an end in the part in front, or leaves it with brackets open. -/
theorem closingFrom_cases (u : Bytes) (deep : 1 ≤ depth) (pos : Nat) :
    (∃ close < pos + u.length, ∀ v, closingFrom left right escaped depth pos (u ++ v) = some close) ∨
    ∃ escaped' depth', 1 ≤ depth' ∧ ∀ v, closingFrom left right escaped depth pos (u ++ v) =
      closingFrom left right escaped' depth' (pos + u.length) v := by
  induction u generalizing escaped depth pos with
  | nil => exact .inr ⟨escaped, depth, deep, fun _ => rfl⟩
  | cons b u ih =>
      have onward {escaped' : Bool} {depth' : Int} (deep : 1 ≤ depth')
          (step : ∀ v, closingFrom left right escaped depth pos (b :: u ++ v) =
            closingFrom left right escaped' depth' (pos + 1) (u ++ v)) :
          (∃ close < pos + (b :: u).length, ∀ v, closingFrom left right escaped depth pos (b :: u ++ v) = some close) ∨
          ∃ escaped' depth', 1 ≤ depth' ∧ ∀ v, closingFrom left right escaped depth pos (b :: u ++ v) =
            closingFrom left right escaped' depth' (pos + (b :: u).length) v := by
        simp only [step, List.length_cons, Nat.add_comm u.length, ← Nat.add_assoc]
        exact ih deep (pos + 1)
      cases escaped with
      | true => exact onward deep fun v => by rw [List.cons_append, closingFrom]
      | false =>
          by_cases escape : (b == backslash) = true
          · exact onward deep fun v => by rw [List.cons_append, closingFrom, if_pos escape]
          by_cases opens : (b == left) = true
          · have deeper : 1 ≤ depth + 1 := by omega
            exact onward deeper fun v => by rw [List.cons_append, closingFrom, if_neg escape, if_pos opens]
          by_cases closes : (b == right) = true
          · by_cases last : (depth == 1) = true
            · refine .inl ⟨pos, Nat.lt_add_of_pos_right (Nat.succ_pos _), fun v => ?_⟩
              rw [List.cons_append, closingFrom, if_neg escape, if_neg opens, if_pos closes, if_pos last]
            · have more : depth ≠ 1 := by simpa using last
              have deeper : 1 ≤ depth - 1 := by omega
              exact onward deeper fun v => by
                rw [List.cons_append, closingFrom, if_neg escape, if_neg opens, if_pos closes, if_neg last]
          · exact onward deep fun v => by
              rw [List.cons_append, closingFrom, if_neg escape, if_neg opens, if_neg closes]

/-- A part that leaves as many brackets open as it finds, and takes no meaning from what stands behind it. -/
def Neutral (left right : UInt8) (x : Bytes) : Prop :=
  ∀ escaped depth pos behind, 1 ≤ depth → closingFrom left right escaped depth pos (x ++ behind) =
    closingFrom left right false depth (pos + x.length) behind

variable {x x' : Bytes}

theorem closing?_cons (meaning : left ≠ backslash) (t : Bytes) :
    closing? left right (left :: t) = closingFrom left right false 1 1 t := by
  rw [closing?, closingFrom, if_neg (by simpa using meaning), if_pos (by simp)]
  rfl

/-- A bracket in front is closed there, or by the same bracket behind either part. -/
theorem closing?_exchange (meaning : left ≠ backslash) (neutral : Neutral left right x)
    (neutral' : Neutral left right x') (u w : Bytes) :
    (∃ close < u.length + 1, ∀ v, closing? left right (left :: (u ++ v)) = some close) ∨
    ∃ found : Option Nat, closing? left right (left :: (u ++ (x ++ w))) = found.map (· + (u.length + 1 + x.length)) ∧
      closing? left right (left :: (u ++ (x' ++ w))) = found.map (· + (u.length + 1 + x'.length)) := by
  simp only [closing?_cons meaning]
  obtain ⟨close, inside, closed⟩ | ⟨escaped, depth, deep, onward⟩ :=
    @closingFrom_cases left right false 1 u (Int.le_refl 1) 1
  · exact .inl ⟨close, by omega, closed⟩
  · refine .inr ⟨closingFrom left right false depth 0 w, ?_, ?_⟩
    · rw [onward, neutral _ _ _ _ deep, ← closingFrom_move, Nat.zero_add, Nat.add_comm 1]
    · rw [onward, neutral' _ _ _ _ deep, ← closingFrom_move, Nat.zero_add, Nat.add_comm 1]

theorem agree_closing? (meaning : left ≠ backslash) (neutral : Neutral left right x)
    (neutral' : Neutral left right x') (u w : Bytes) :
    Agree (u.length + 1) ((closing? left right (left :: (u ++ (x ++ w)))).map (· + 1))
      ((closing? left right (left :: (u ++ (x' ++ w)))).map (· + 1)) := by
  obtain ⟨close, -, closed⟩ | ⟨found, here, here'⟩ := closing?_exchange meaning neutral neutral' u w
  · rw [closed, closed]
    exact .refl _ _
  · rw [here, here', Option.map_map, Option.map_map]
    exact .of_map (fun n => by simp only [Function.comp]; omega) found

end Bracket

namespace Inline

/-! ## Searches that brackets have no part in -/

theorem angleFrom_move {escaped : Bool} (k pos : Nat) (t : Bytes) :
    angleFrom escaped (pos + k) t = (angleFrom escaped pos t).map (· + k) := by
  fun_induction angleFrom escaped pos t with
  | case1 => rfl
  | case2 pos b rest ih => rw [angleFrom, Nat.add_right_comm, ih]
  | case3 pos b rest escape ih => rw [angleFrom, if_pos escape, Nat.add_right_comm, ih]
  | case4 pos b rest escape closes => rw [angleFrom, if_neg escape, if_pos closes]; rfl
  | case5 pos b rest escape closes ends => rw [angleFrom, if_neg escape, if_neg closes, if_pos ends]; rfl
  | case6 pos b rest escape closes ends ih =>
      rw [angleFrom, if_neg escape, if_neg closes, if_neg ends, Nat.add_right_comm, ih]

theorem angleFrom_cases {escaped : Bool} (u : Bytes) (pos : Nat) :
    (∃ found : Option Nat, (∀ k ∈ found, k < pos + u.length) ∧ ∀ v, angleFrom escaped pos (u ++ v) = found) ∨
    ∃ escaped', ∀ v, angleFrom escaped pos (u ++ v) = angleFrom escaped' (pos + u.length) v := by
  induction u generalizing escaped pos with
  | nil => exact .inr ⟨escaped, fun _ => rfl⟩
  | cons b u ih =>
      have onward {escaped' : Bool}
          (step : ∀ v, angleFrom escaped pos (b :: u ++ v) = angleFrom escaped' (pos + 1) (u ++ v)) :
          (∃ found : Option Nat, (∀ k ∈ found, k < pos + (b :: u).length) ∧
            ∀ v, angleFrom escaped pos (b :: u ++ v) = found) ∨
          ∃ escaped', ∀ v, angleFrom escaped pos (b :: u ++ v) = angleFrom escaped' (pos + (b :: u).length) v := by
        simp only [step, List.length_cons, Nat.add_comm u.length, ← Nat.add_assoc]
        exact ih (pos + 1)
      cases escaped with
      | true => exact onward fun v => by rw [List.cons_append, angleFrom]
      | false =>
          by_cases escape : (b == Bracket.backslash) = true
          · exact onward fun v => by rw [List.cons_append, angleFrom, if_pos escape]
          by_cases closes : (b == 0x3E) = true
          · refine .inl ⟨some pos, by simp, fun v => ?_⟩
            rw [List.cons_append, angleFrom, if_neg escape, if_pos closes]
          by_cases ends : (b == Bytes.lf) = true
          · refine .inl ⟨none, by simp, fun v => ?_⟩
            rw [List.cons_append, angleFrom, if_neg escape, if_neg closes, if_pos ends]
          · exact onward fun v => by rw [List.cons_append, angleFrom, if_neg escape, if_neg closes, if_neg ends]

theorem autolinkEnd_cases (u : Bytes) (pos : Nat) :
    (∃ found : Option Nat, (∀ k ∈ found, k < pos + u.length) ∧ ∀ v, autolinkEnd pos (u ++ v) = found) ∨
    ∀ v, autolinkEnd pos (u ++ v) = autolinkEnd (pos + u.length) v := by
  induction u generalizing pos with
  | nil => exact .inr fun _ => rfl
  | cons b u ih =>
      by_cases closes : (b == 0x3E) = true
      · refine .inl ⟨some pos, by simp, fun v => ?_⟩
        rw [List.cons_append, autolinkEnd, if_pos closes]
      by_cases ends : (b == 0x3C || Bytes.isSpaceByte b) = true
      · refine .inl ⟨none, by simp, fun v => ?_⟩
        rw [List.cons_append, autolinkEnd, if_neg closes, if_pos ends]
      · simp only [List.cons_append, autolinkEnd, if_neg closes, if_neg ends, List.length_cons, Nat.add_comm u.length,
          ← Nat.add_assoc]
        exact ih (pos + 1)

theorem backticksEnd_move {n run : Nat} (k pos : Nat) (t : Bytes) :
    backticksEnd n run (pos + k) t = (backticksEnd n run pos t).map (· + k) := by
  induction t generalizing run pos with
  | nil =>
      rw [backticksEnd, backticksEnd]
      split <;> rfl
  | cons b t ih =>
      rw [backticksEnd, backticksEnd, Nat.add_right_comm, ih, ih]
      split
      · rfl
      · split <;> rfl

/-- A run of backticks that ends with the part in front is known to, since no backtick follows. -/
theorem backticksEnd_cases {n run : Nat} (u : Bytes) (pos : Nat) {c : UInt8} (other : c ≠ 0x60) :
    (∃ stop ≤ pos + u.length, ∀ v, backticksEnd n run pos (u ++ c :: v) = some stop) ∨
    ∀ v, backticksEnd n run pos (u ++ c :: v) = backticksEnd n 0 (pos + u.length + 1) v := by
  induction u generalizing run pos with
  | nil =>
      simp only [List.nil_append, backticksEnd, beq_eq_false_iff_ne.mpr other, Bool.false_eq_true, if_false,
        List.length_nil, Nat.add_zero]
      by_cases ends : (run == n) = true
      · exact .inl ⟨pos, Nat.le_refl _, fun v => if_pos ends⟩
      · exact .inr fun v => if_neg ends
  | cons b u ih =>
      simp only [List.cons_append, backticksEnd, List.length_cons, Nat.add_comm u.length, ← Nat.add_assoc]
      by_cases tick : (b == 0x60) = true
      · simp only [if_pos tick]
        exact ih (pos + 1)
      · simp only [if_neg tick]
        by_cases ends : (run == n) = true
        · exact .inl ⟨pos, by omega, fun v => if_pos ends⟩
        · simp only [if_neg ends]
          exact ih (pos + 1)

theorem backticksEnd_free {n : Nat} {y : Bytes} (free : 0x60 ∉ y) (pos : Nat) (v : Bytes) (differs : n ≠ 0) :
    backticksEnd n 0 pos (y ++ v) = backticksEnd n 0 (pos + y.length) v := by
  induction y generalizing pos with
  | nil => rfl
  | cons b y ih =>
      obtain ⟨other, free⟩ : 0x60 ≠ b ∧ 0x60 ∉ y := by simpa using free
      rw [List.cons_append, backticksEnd, if_neg (by simpa using other.symm), if_neg (by simpa using differs.symm),
        ih free, List.length_cons, Nat.add_comm y.length, ← Nat.add_assoc]

theorem autolinkEnd_colon (pos : Nat) (t : Bytes) : autolinkEnd pos (0x3A :: t) = autolinkEnd (pos + 1) t := by
  rw [autolinkEnd, if_neg (by decide), if_neg (by decide)]

/-! ## Parts that may be exchanged -/

/-- What stands behind the colon of a part that starts with a letter there, and has no meaning to the searches that
    start at the bytes in `front`. -/
structure Contained (front y : Bytes) : Prop where
  letter : ∃ b ∈ y.head?, Bytes.isLetter b = true
  square : Bracket.Neutral 0x5B 0x5D (0x3A :: y)
  code : 0x60 ∈ front → 0x60 ∉ y
  paren : 0x28 ∈ front → 0x29 ∉ y ∧ Bracket.Neutral 0x28 0x29 (0x3A :: y)
  brace : 0x7B ∈ front → Bracket.Neutral 0x7B 0x7D (0x3A :: y)
  angle : 0x3C ∈ front → ∀ escaped pos v, angleFrom escaped pos (0x3A :: (y ++ v)) =
    angleFrom false (pos + 1 + y.length) v

/-- Two such parts, the second of which stops an autolink where the first does. -/
structure Exchangeable (front y y' : Bytes) : Prop where
  old : Contained front y
  new : Contained front y'
  autolink : 0x3C ∈ front → ∀ pos pos' v, autolinkEnd pos (y ++ v) = none → autolinkEnd pos' (y' ++ v) = none

/-! ## Directives -/

/-- A text starts like a directive, or it does not whatever follows the colon behind it. -/
theorem directive?_cases (u : Bytes) :
    (∃ name v, IsName name ∧ u = name ++ 0x5B :: v) ∨ ∀ v, directive? (u ++ 0x3A :: v) = none := by
  have stops (v : Bytes) : ∀ b ∈ (0x3A :: v : Bytes).head?, isNameByte b = false := by simp; decide
  cases u with
  | nil => exact .inr fun v => rfl
  | cons b u =>
      have whole := List.takeWhile_append_dropWhile (p := isNameByte) (l := b :: u)
      have named := List.all_takeWhile (p := isNameByte) (l := b :: u)
      have nameOf (v : Bytes) := takeWhile_append_of_stop (stops v) (b :: u)
      have restOf (v : Bytes) := dropWhile_append_of_stop (stops v) (b :: u)
      simp only [List.cons_append] at nameOf restOf
      by_cases letter : Bytes.isLetter b = true
      · have first : ∃ name, (b :: u).takeWhile isNameByte = b :: name := by
          rw [List.takeWhile_cons_of_pos (by simp [isNameByte, letter])]
          exact ⟨_, rfl⟩
        obtain ⟨name, first⟩ := first
        generalize (b :: u).dropWhile isNameByte = rest at whole restOf
        cases rest with
        | nil => exact .inr fun v => by simp [directive?, letter, restOf]
        | cons c rest =>
            by_cases bracket : c = 0x5B
            · subst bracket
              refine .inl ⟨b :: name, rest, ⟨⟨b, rfl, letter⟩, ?_⟩, by rw [← first, whole]⟩
              exact first ▸ List.all_eq_true.mp named
            · exact .inr fun v => by simp [directive?, letter, restOf, bracket]
      · exact .inr fun v => by simp [directive?, letter]

theorem directive?_named {name : Bytes} (named : IsName name) (t : Bytes) :
    directive? (name ++ 0x5B :: t) = (Bracket.square? (0x5B :: t)).map fun close =>
      ⟨name, t.take (close - 1), attributesLength (t.drop close)⟩ := by
  have stops : ∀ b ∈ (0x5B :: t : Bytes).head?, isNameByte b = false := by simp; decide
  have nameOf := takeWhile_run named.bytes stops
  have restOf := dropWhile_run named.bytes stops
  obtain ⟨b, first, letter⟩ := named.letter
  obtain ⟨rest, spelled⟩ := List.head?_eq_some_iff.mp first
  rw [spelled, List.cons_append] at nameOf restOf ⊢
  simp only [directive?, letter, nameOf, restOf, ← spelled]
  cases Bracket.square? (0x5B :: t) <;> rfl

section

variable {front u y y' : Bytes} (exchangeable : Exchangeable front y y') (within : u ⊆ front) {before : Option UInt8}
  {d : DirectiveParts}
include exchangeable within

theorem attributesLength_exchange {w : Bytes} (le : attributesLength (u ++ 0x3A :: (y ++ w)) ≤ u.length) :
    attributesLength (u ++ 0x3A :: (y' ++ w)) = attributesLength (u ++ 0x3A :: (y ++ w)) := by
  cases u with
  | nil => rfl
  | cons b u =>
      by_cases brace : b = 0x7B
      · subst brace
        have here := within List.mem_cons_self
        have agree := Bracket.agree_closing? (by decide) (exchangeable.old.brace here) (exchangeable.new.brace here) u w
        simp only [List.cons_append, attributesLength, List.head?_cons, beq_self_eq_true, if_true, Bracket.brace?,
          List.length_cons] at le ⊢
        cases closed : Bracket.closing? 0x7B 0x7D (0x7B :: (u ++ 0x3A :: (y ++ w))) with
        | none =>
            simp only [List.cons_append, closed] at agree
            rw [agree.none rfl]
            rfl
        | some close =>
            rw [closed] at le
            simp only [List.cons_append, closed] at agree
            rw [agree.some _ le rfl]
            rfl
      · simp [attributesLength, brace]

omit within in
theorem directiveAt?_exchange_none {w : Bytes} (none : directiveAt? before (u ++ 0x3A :: (y ++ w)) = none) :
    directiveAt? before (u ++ 0x3A :: (y' ++ w)) = .none := by
  unfold directiveAt? at none ⊢
  split
  · rename_i may
    rw [if_pos may] at none
    obtain ⟨name, v, named, rfl⟩ | never := directive?_cases u
    · have agree := Bracket.agree_closing? (by decide) exchangeable.old.square exchangeable.new.square v w
      rw [List.append_assoc, List.cons_append, directive?_named named, Option.map_eq_none_iff] at none ⊢
      exact Option.map_eq_none_iff.mp (agree.none (Option.map_eq_none_iff.mpr none))
    · exact never _
  · rfl

/-- A directive in front of the part stays. -/
theorem directiveAt?_exchange_before {w : Bytes} (found : directiveAt? before (u ++ 0x3A :: (y ++ w)) = some d)
    (le : d.length ≤ u.length + 1) : directiveAt? before (u ++ 0x3A :: (y' ++ w)) = some d := by
  unfold directiveAt? at found ⊢
  split at found
  · rename_i may
    rw [if_pos may]
    obtain ⟨name, v, named, rfl⟩ | never := directive?_cases u
    · rw [List.append_assoc, List.cons_append, directive?_named named] at found ⊢
      obtain ⟨close, closed, rfl⟩ := Option.map_eq_some_iff.mp found
      have bounds := Bracket.closing?_lt closed
      simp only [DirectiveParts.length, List.length_take, List.length_append, List.length_cons] at le bounds
      obtain ⟨close', inside, always⟩ | ⟨behind, here, -⟩ :=
        Bracket.closing?_exchange (by decide) exchangeable.old.square exchangeable.new.square v w
      · obtain rfl : close = close' := Option.some.inj (closed.symm.trans (always _))
        rw [Bracket.square?, always, Option.map_some]
        have shorter : v.drop close ⊆ front := fun b member =>
          within (List.mem_append_right _ (List.mem_cons_of_mem _ (List.mem_of_mem_drop member)))
        rw [List.take_append_of_le_length (by omega), List.take_append_of_le_length (by omega),
          List.drop_append_of_le_length (by omega), List.drop_append_of_le_length (by omega),
          attributesLength_exchange exchangeable shorter]
        rw [List.drop_append_of_le_length (by omega)] at le
        rw [List.length_drop]
        omega
      · rw [Bracket.square?] at closed
        obtain ⟨j, -, same⟩ := Option.map_eq_some_iff.mp (here.symm.trans closed)
        simp only [List.length_cons] at same
        omega
    · rw [never] at found
      cases found
  · cases found

omit within in
/-- A directive around the part is around what comes in its place. -/
theorem directiveAt?_exchange_inside {v w w' : Bytes} (around : u = d.name ++ 0x5B :: v)
    (held : d.inner = v ++ 0x3A :: (y ++ w'))
    (found : directiveAt? before (u ++ 0x3A :: (y ++ w)) = some d) :
    ∃ d' : DirectiveParts, directiveAt? before (u ++ 0x3A :: (y' ++ w)) = some d' ∧ d'.name = d.name ∧
      d'.inner = v ++ 0x3A :: (y' ++ w') := by
  unfold directiveAt? at found ⊢
  split at found
  · rename_i may
    rw [if_pos may]
    obtain ⟨tail, spelled⟩ := directive?_spelled found
    subst around
    rw [List.append_assoc, List.cons_append, directive?_named spelled.name] at found ⊢
    obtain ⟨close, closed, same⟩ := Option.map_eq_some_iff.mp found
    have bounds := Bracket.closing?_lt closed
    have inner : (v ++ 0x3A :: (y ++ w)).take (close - 1) = v ++ 0x3A :: (y ++ w') :=
      (congrArg DirectiveParts.inner same).trans held
    have length := congrArg List.length inner
    simp only [List.length_take, List.length_append, List.length_cons] at length bounds
    obtain ⟨close', inside, always⟩ | ⟨behind, here, here'⟩ :=
      Bracket.closing?_exchange (by decide) exchangeable.old.square exchangeable.new.square v w
    · obtain rfl : close' = close := Option.some.inj ((always _).symm.trans closed)
      omega
    · rw [Bracket.square?] at closed
      obtain ⟨j, known, rfl⟩ := Option.map_eq_some_iff.mp (here.symm.trans closed)
      refine ⟨_, (congrArg (Option.map _) (here'.trans (congrArg (Option.map _) known))).trans rfl, rfl, ?_⟩
      have split (z : Bytes) : (v ++ 0x3A :: (z ++ w)).take (j + (v.length + 1 + (0x3A :: z : Bytes).length) - 1) =
          v ++ 0x3A :: (z ++ w.take j) := by
        have count : j + (v.length + 1 + (0x3A :: z : Bytes).length) - 1 = (v ++ 0x3A :: z).length + j := by
          simp only [List.length_append, List.length_cons]
          omega
        rw [count, ← List.cons_append, ← List.append_assoc, List.take_length_add_append]
        simp
      have rest : w.take j = w' := by
        rw [split] at inner
        simpa using inner
      rw [← rest]
      exact split y'
  · cases found

end

/-! ## Links -/

/-- The first byte `c` that is none of the first bytes is the same, or behind either part. -/
theorem indexOf?_exchange {c : UInt8} {x x' : Bytes} (free : c ∉ x) (free' : c ∉ x') (u w : Bytes) :
    (∃ i < u.length, ∀ v, Bytes.indexOf? (u ++ v) c = some i) ∨
    ∃ found : Option Nat, Bytes.indexOf? (u ++ (x ++ w)) c = found.map (· + (u.length + x.length)) ∧
      Bytes.indexOf? (u ++ (x' ++ w)) c = found.map (· + (u.length + x'.length)) := by
  by_cases held : c ∈ u
  · obtain ⟨front, rest, rfl, first⟩ := List.eq_append_cons_of_mem held
    refine .inl ⟨front.length, by simp, fun v => ?_⟩
    rw [List.append_assoc, List.cons_append, Bytes.indexOf?_first first]
  · have passed {z : Bytes} (free : c ∉ z) :
        Bytes.indexOf? (u ++ (z ++ w)) c = (Bytes.indexOf? w c).map (· + (u.length + z.length)) := by
      have outside : ∀ b ∈ u ++ z, (b == c) = false := by
        intro b member
        obtain member | member := List.mem_append.mp member
        · exact beq_eq_false_iff_ne.mpr fun same => held (same ▸ member)
        · exact beq_eq_false_iff_ne.mpr fun same => free (same ▸ member)
      rw [← List.append_assoc, Bytes.indexOf?, List.findIdx?_append, List.findIdx?_eq_none_iff.mpr outside]
      simp [Bytes.indexOf?]
    exact .inr ⟨Bytes.indexOf? w c, passed free, passed free'⟩

theorem destination?_angled {blanks : Bytes} (blank : ∀ b ∈ blanks, Bytes.isBlankByte b = true) (t : Bytes) :
    destination? (0x28 :: (blanks ++ 0x3C :: t)) = ((angleFrom false 0 t).bind fun k =>
      (Bytes.indexOf? (t.drop (k + 1)) 0x29).map (· + (k + 2))).map (· + (blanks.length + 1)) := by
  have stops : ∀ b ∈ (0x3C :: t : Bytes).head?, Bytes.isBlankByte b = false := by simp; decide
  simp only [destination?, List.drop_succ_cons, List.drop_zero, takeWhile_run blank stops, drop_run, List.head?_cons,
    beq_self_eq_true, if_true]
  cases angleFrom false 0 t with
  | none => rfl
  | some k =>
      simp only [Option.bind_some, Option.map_map]
      congr 1
      funext i
      simp only [Function.comp]
      omega

theorem destination?_plain {blanks t : Bytes} (blank : ∀ b ∈ blanks, Bytes.isBlankByte b = true)
    (stops : ∀ b ∈ t.head?, Bytes.isBlankByte b = false) (other : t.head? ≠ some 0x3C) :
    destination? (0x28 :: (blanks ++ t)) = Bracket.paren? (0x28 :: (blanks ++ t)) := by
  simp only [destination?, List.drop_succ_cons, List.drop_zero, takeWhile_run blank stops, drop_run,
    beq_eq_false_iff_ne.mpr other, Bool.false_eq_true, if_false]

theorem definition?_behind {blanks t : Bytes} (blank : ∀ b ∈ blanks, Bytes.isBlankByte b = true)
    (stops : ∀ b ∈ t.head?, Bytes.isBlankByte b = false) :
    definition? (0x3A :: (blanks ++ t)) =
      if (t.takeWhile fun b => !Bytes.isSpaceByte b).isEmpty then none
      else some (1 + blanks.length + (t.takeWhile fun b => !Bytes.isSpaceByte b).length) := by
  simp only [definition?, List.drop_succ_cons, List.drop_zero, takeWhile_run blank stops, drop_run]

theorem word_of_isLetter (b : UInt8) (letter : Bytes.isLetter b = true) :
    Bytes.isBlankByte b = false ∧ Bytes.isSpaceByte b = false := by
  have space : b ≠ Bytes.space := Bytes.ne_of_class letter rfl
  have tab : b ≠ Bytes.tab := Bytes.ne_of_class letter rfl
  have lf : b ≠ Bytes.lf := Bytes.ne_of_class letter rfl
  have cr : b ≠ Bytes.cr := Bytes.ne_of_class letter rfl
  exact ⟨by simp [Bytes.isBlankByte, space, tab], by simp [Bytes.isSpaceByte, space, tab, lf, cr]⟩

theorem Contained.definition? {front y : Bytes} (contained : Contained front y) (w : Bytes) :
    ∃ n, Inline.definition? (0x3A :: (y ++ w)) = some (n + 1) := by
  obtain ⟨b, first, letter⟩ := contained.letter
  obtain ⟨y, rfl⟩ := List.head?_eq_some_iff.mp first
  obtain ⟨blank, space⟩ := word_of_isLetter b letter
  have known := @definition?_behind [] (b :: (y ++ w)) nofun (by simpa using blank)
  rw [List.takeWhile_cons_of_pos (by simp [space])] at known
  exact ⟨_, known⟩

/-- What a link takes behind the closing bracket of its label, if the label may be that of a definition. -/
def linkTail (fresh : Bool) (t : Bytes) : Option Nat :=
  if t.head? = some 0x28 then (destination? t).map (· + 1)
  else if t.head? = some 0x3A ∧ fresh = true then definition? t
  else none

theorem link?_eq {before : Option UInt8} {opening u : Bytes} (opens : opening = [0x5B] ∨ opening = [0x21, 0x5B]) :
    link? before (opening ++ u) = (Bracket.square? (0x5B :: u)).bind fun close =>
      (linkTail (opening.length == 1 && (before == none || before == some Bytes.lf)) (u.drop close)).map
        (· + (opening.length + close)) := by
  have labelled {bang : Nat} {t : Bytes} (known : (if t.head? == some 0x21 then 1 else 0) = bang)
      (label : t.drop bang = 0x5B :: u) : link? before t = (Bracket.square? (0x5B :: u)).bind fun close =>
        (linkTail (bang == 0 && (before == none || before == some Bytes.lf)) (u.drop close)).map
          (· + (bang + 1 + close)) := by
    simp only [link?, known, label]
    cases Bracket.square? (0x5B :: u) with
    | none => rfl
    | some close =>
        have behind : t.drop (bang + close + 1) = u.drop close := by
          rw [Nat.add_assoc, ← List.drop_drop, label]
          rfl
        simp only [Option.bind_some, behind, linkTail]
        split
        · rename_i paren
          rw [if_pos paren, Option.map_map]
          congr 1
          funext n
          simp only [Function.comp]
          omega
        · rename_i colon
          have other : (some 0x3A : Option UInt8) ≠ some 0x28 := by decide
          simp only [colon, true_and, if_neg other]
          by_cases fresh : (bang == 0 && (before == none || before == some Bytes.lf)) = true
          · rw [if_pos fresh, if_pos fresh]
            congr 1
            funext n
            rw [Bool.and_eq_true, beq_iff_eq] at fresh
            omega
          · rw [if_neg fresh, if_neg fresh]
            rfl
        · rename_i paren colon
          rw [if_neg paren, if_neg fun both => colon both.1]
          rfl
  obtain rfl | rfl := opens
  · exact labelled rfl rfl
  · exact labelled rfl rfl

/-- An angle bracket in front is closed or given up there, or it is closed behind either part. -/
theorem angleFrom_exchange {front y y' : Bytes} (exchangeable : Exchangeable front y y') (angle : 0x3C ∈ front)
    (u w : Bytes) :
    (∃ found : Option Nat, (∀ k ∈ found, k < u.length) ∧ ∀ v, angleFrom false 0 (u ++ v) = found) ∨
    ∃ found : Option Nat,
      angleFrom false 0 (u ++ 0x3A :: (y ++ w)) = found.map (· + (u.length + (0x3A :: y : Bytes).length)) ∧
      angleFrom false 0 (u ++ 0x3A :: (y' ++ w)) = found.map (· + (u.length + (0x3A :: y' : Bytes).length)) := by
  obtain ⟨found, inside, always⟩ | ⟨escaped, onward⟩ := @angleFrom_cases false u 0
  · exact .inl ⟨found, by simpa using inside, always⟩
  · refine .inr ⟨angleFrom false 0 w, ?_, ?_⟩
    · rw [onward, exchangeable.old.angle angle, ← angleFrom_move, List.length_cons]
      congr 1
      omega
    · rw [onward, exchangeable.new.angle angle, ← angleFrom_move, List.length_cons]
      congr 1
      omega

section

variable {front u y y' : Bytes} (exchangeable : Exchangeable front y y') (within : u ⊆ front) (w : Bytes)
include exchangeable

theorem agree_angled (angle : 0x3C ∈ front) (paren : 0x28 ∈ front) :
    Agree u.length
      ((angleFrom false 0 (u ++ 0x3A :: (y ++ w))).bind fun k =>
        (Bytes.indexOf? ((u ++ 0x3A :: (y ++ w)).drop (k + 1)) 0x29).map (· + (k + 2)))
      ((angleFrom false 0 (u ++ 0x3A :: (y' ++ w))).bind fun k =>
        (Bytes.indexOf? ((u ++ 0x3A :: (y' ++ w)).drop (k + 1)) 0x29).map (· + (k + 2))) := by
  obtain ⟨found, inside, always⟩ | ⟨found, here, here'⟩ := angleFrom_exchange exchangeable angle u w
  · rw [always, always]
    cases found with
    | none => exact .refl _ _
    | some k =>
        have le := inside k rfl
        have free {z : Bytes} (free : 0x29 ∉ z) : 0x29 ∉ (0x3A :: z : Bytes) := by simpa using free
        simp only [Option.bind_some]
        rw [List.drop_append_of_le_length (by omega), List.drop_append_of_le_length (by omega)]
        obtain ⟨i, -, always⟩ | ⟨found, here, here'⟩ := indexOf?_exchange
          (free (exchangeable.old.paren paren).1) (free (exchangeable.new.paren paren).1) (u.drop (k + 1)) w
        · rw [always, always]
          exact .refl _ _
        · rw [← List.cons_append, ← List.cons_append, here, here', Option.map_map, Option.map_map]
          refine .of_map (fun n => ?_) found
          simp only [Function.comp, List.length_drop]
          omega
  · rw [here, here']
    cases found with
    | none => exact .refl _ _
    | some k =>
        have behind (z : Bytes) :
            (u ++ 0x3A :: (z ++ w)).drop (k + (u.length + (0x3A :: z : Bytes).length) + 1) = w.drop (k + 1) := by
          have parts : u ++ 0x3A :: (z ++ w) = (u ++ 0x3A :: z) ++ w := by simp
          rw [parts, Nat.add_right_comm, Nat.add_comm, ← List.drop_drop, ← List.length_append, List.drop_left]
        simp only [Option.map_some, Option.bind_some, behind]
        exact .of_map (fun n => by omega) _

include within in
theorem agree_destination? (head : u.head? = some 0x28) :
    Agree u.length ((destination? (u ++ 0x3A :: (y ++ w))).map (· + 1))
      ((destination? (u ++ 0x3A :: (y' ++ w))).map (· + 1)) := by
  obtain ⟨u, rfl⟩ := List.head?_eq_some_iff.mp head
  obtain ⟨blanks, u, rfl, -, blank, stops⟩ := Bytes.exists_run Bytes.isBlankByte u
  have paren : 0x28 ∈ front := within List.mem_cons_self
  by_cases angle : u.head? = some 0x3C
  · obtain ⟨u, rfl⟩ := List.head?_eq_some_iff.mp angle
    have angle : 0x3C ∈ front := within (by simp)
    have agree := (agree_angled exchangeable (u := u) w angle paren).map_add (k := blanks.length + 1)
      (l := u.length + (blanks.length + 1)) (Nat.le_refl _)
    simp only [List.cons_append, List.append_assoc, destination?_angled blank]
    refine agree.map_add (k := 1) ?_
    simp only [List.length_cons, List.length_append]
    omega
  · have other (v : Bytes) : (u ++ 0x3A :: v).head? ≠ some 0x3C := by
      cases u with
      | nil => simp
      | cons b u => exact angle
    have ends (v : Bytes) : ∀ b ∈ (u ++ 0x3A :: v).head?, Bytes.isBlankByte b = false := by
      cases u with
      | nil => simp; decide
      | cons b u => exact stops
    simp only [List.cons_append, List.append_assoc, destination?_plain blank (ends _) (other _)]
    have agree := Bracket.agree_closing? (by decide) (exchangeable.old.paren paren).2 (exchangeable.new.paren paren).2
      (blanks ++ u) w
    simp only [List.append_assoc, List.cons_append] at agree
    exact agree

omit exchangeable in
theorem agree_definition? (head : u.head? = some 0x3A) :
    Agree u.length (definition? (u ++ 0x3A :: (y ++ w))) (definition? (u ++ 0x3A :: (y' ++ w))) := by
  obtain ⟨u, rfl⟩ := List.head?_eq_some_iff.mp head
  obtain ⟨blanks, u, rfl, -, blank, stops⟩ := Bytes.exists_run Bytes.isBlankByte u
  have ends (v : Bytes) : ∀ b ∈ (u ++ 0x3A :: v).head?, Bytes.isBlankByte b = false := by
    cases u with
    | nil => simp; decide
    | cons b u => exact stops
  simp only [List.cons_append, List.append_assoc, definition?_behind blank (ends _)]
  obtain ⟨word, rest, rfl, -, filled, stops⟩ := Bytes.exists_run (fun b => !Bytes.isSpaceByte b) u
  cases rest with
  | nil =>
      -- The target goes on into the part, whose colon is no space.
      have held (z : Bytes) : ((word ++ [] ++ 0x3A :: z).takeWhile fun b => !Bytes.isSpaceByte b) =
          word ++ 0x3A :: z.takeWhile fun b => !Bytes.isSpaceByte b := by
        rw [List.append_nil, List.takeWhile_append_of_pos filled]
        rfl
      have nonempty (z : Bytes) : (word ++ 0x3A :: z).isEmpty = false := by simp
      simp only [held, nonempty, Bool.false_eq_true, if_false]
      refine .of_behind ?_ nofun
      rintro _ ⟨⟩
      simp only [List.append_nil, List.length_cons, List.length_append]
      omega
  | cons b rest =>
      have same (v : Bytes) : ((word ++ b :: rest ++ v).takeWhile fun b => !Bytes.isSpaceByte b) = word := by
        rw [List.append_assoc]
        have stops : ∀ c ∈ (b :: rest ++ v).head?, (!Bytes.isSpaceByte c) = false := stops
        exact takeWhile_run filled stops
      simp only [same]
      exact .refl _ _

include within in
theorem agree_linkTail (fresh : Bool) :
    Agree u.length (linkTail fresh (u ++ 0x3A :: (y ++ w))) (linkTail fresh (u ++ 0x3A :: (y' ++ w))) := by
  cases u with
  | nil =>
      -- A part in front of which a label ends is the target of a definition, or none.
      have held (z : Bytes) : linkTail fresh ([] ++ 0x3A :: (z ++ w)) =
          if fresh then definition? (0x3A :: (z ++ w)) else none := by simp [linkTail]
      obtain ⟨n, found⟩ := exchangeable.old.definition? w
      obtain ⟨n', found'⟩ := exchangeable.new.definition? w
      rw [held, held, found, found']
      split_ifs
      · exact .of_behind (by simp) nofun
      · exact .refl _ _
  | cons b u =>
      have head (v : Bytes) : (b :: u ++ v).head? = some b := rfl
      by_cases paren : b = 0x28
      · have held (v : Bytes) : linkTail fresh (b :: u ++ v) = (destination? (b :: u ++ v)).map (· + 1) := by
          rw [linkTail, if_pos (by rw [head, paren])]
        rw [held, held]
        exact agree_destination? exchangeable within w (by rw [paren]; rfl)
      by_cases colon : b = 0x3A ∧ fresh = true
      · have held (v : Bytes) : linkTail fresh (b :: u ++ v) = definition? (b :: u ++ v) := by
          rw [linkTail, if_neg (by simpa using paren), if_pos (by simpa using colon)]
        rw [held, held]
        exact agree_definition? w (by rw [colon.1]; rfl)
      · have held (v : Bytes) : linkTail fresh (b :: u ++ v) = none := by
          rw [linkTail, if_neg (by simpa using paren), if_neg (by simpa using colon)]
        rw [held, held]
        exact .refl _ _

include within in
theorem agree_link?_opened {before : Option UInt8} {opening : Bytes}
    (opens : opening = [0x5B] ∨ opening = [0x21, 0x5B]) :
    Agree (opening.length + u.length) (link? before (opening ++ (u ++ 0x3A :: (y ++ w))))
      (link? before (opening ++ (u ++ 0x3A :: (y' ++ w)))) := by
  rw [link?_eq opens, link?_eq opens]
  obtain ⟨close, inside, always⟩ | ⟨found, here, here'⟩ :=
    Bracket.closing?_exchange (by decide) exchangeable.old.square exchangeable.new.square u w
  · rw [Bracket.square?, Bracket.square?, always, always, Option.bind_some, Option.bind_some,
      List.drop_append_of_le_length (by omega), List.drop_append_of_le_length (by omega)]
    refine (agree_linkTail exchangeable (List.Subset.trans (List.drop_subset _ _) within) w _).map_add ?_
    rw [List.length_drop]
    omega
  · simp only [List.cons_append] at here here'
    rw [Bracket.square?, Bracket.square?, here, here']
    cases found with
    | none => exact .refl _ _
    | some k =>
        have behind (z : Bytes) :
            (u ++ 0x3A :: (z ++ w)).drop (k + (u.length + 1 + (0x3A :: z : Bytes).length)) = w.drop (k + 1) := by
          have parts : u ++ 0x3A :: (z ++ w) = (u ++ 0x3A :: z) ++ w := by simp
          have count : k + (u.length + 1 + (0x3A :: z : Bytes).length) = (u ++ 0x3A :: z).length + (k + 1) := by
            rw [List.length_append]
            omega
          rw [parts, count, ← List.drop_drop, List.drop_left]
        simp only [Option.map_some, Option.bind_some, behind]
        exact .of_map (fun n => by omega) _

omit exchangeable in
theorem startsLink_exchange (b : UInt8) (u y y' : Bytes) :
    startsLink b (u ++ 0x3A :: y') = startsLink b (u ++ 0x3A :: y) := by
  cases u <;> rfl

include within in
theorem agree_link? {before : Option UInt8} {b : UInt8} (starts : startsLink b (u ++ 0x3A :: (y ++ w)) = true) :
    Agree (u.length + 1) (link? before (b :: (u ++ 0x3A :: (y ++ w))))
      (link? before (b :: (u ++ 0x3A :: (y' ++ w)))) := by
  -- The brackets that the link starts with stand in front of the colon.
  obtain ⟨opening, v, opens, split⟩ :
      ∃ opening v, (opening = [0x5B] ∨ opening = [0x21, 0x5B]) ∧ b :: u = opening ++ v := by
    simp only [startsLink, Bool.or_eq_true, Bool.and_eq_true, beq_iff_eq] at starts
    obtain rfl | ⟨rfl, bracket⟩ := starts
    · exact ⟨[0x5B], u, .inl rfl, rfl⟩
    · cases u with
      | nil => cases bracket
      | cons c u =>
          obtain rfl : c = 0x5B := Option.some.inj bracket
          exact ⟨[0x21, 0x5B], u, .inr rfl, rfl⟩
  have label : v ⊆ front := by
    obtain rfl | rfl := opens
    · obtain ⟨-, rfl⟩ := List.cons.inj split
      exact within
    · obtain ⟨-, rfl⟩ := List.cons.inj split
      exact fun c member => within (List.mem_cons_of_mem _ member)
  have length := congrArg List.length split
  rw [List.length_cons, List.length_append] at length
  have parts (t : Bytes) : b :: (u ++ t) = opening ++ (v ++ t) := by
    rw [← List.append_assoc, ← split, List.cons_append]
  rw [length, parts, parts]
  exact agree_link?_opened exchangeable label w opens

/-! ## Autolinks and code spans -/

omit exchangeable in
theorem autolink?_run {scheme rest : Bytes} (letter : ∃ b ∈ (scheme ++ rest).head?, Bytes.isLetter b = true)
    (pass : ∀ b ∈ scheme, isSchemeByte b = true) (stops : ∀ b ∈ rest.head?, isSchemeByte b = false) :
    autolink? (scheme ++ rest) = if rest.head? != some 0x3A || scheme.length < 2 then none
      else (autolinkEnd 0 (rest.drop 1)).map (· + (scheme.length + 3)) := by
  have schemeOf := takeWhile_run pass stops
  have restOf := dropWhile_run pass stops
  obtain ⟨b, first, letter⟩ := letter
  obtain ⟨more, whole⟩ := List.head?_eq_some_iff.mp first
  rw [whole] at schemeOf restOf ⊢
  simp only [autolink?, letter, schemeOf, restOf, Bool.not_true, Bool.false_eq_true, if_false]
  congr 2
  funext n
  omega

omit exchangeable in
/-- A scheme ends in front of the colon of the part, or with a colon in front of it, or there is none. -/
theorem autolink?_cases (u : Bytes) :
    (∀ v, autolink? (u ++ 0x3A :: v) = (autolinkEnd 0 v).map (· + (u.length + 3))) ∨
    (∃ scheme r, u = scheme ++ 0x3A :: r ∧ ∀ v, autolink? (u ++ v) =
      (autolinkEnd 0 (r ++ v)).map (· + (scheme.length + 3))) ∨
    ∀ v, autolink? (u ++ 0x3A :: v) = none := by
  cases u with
  | nil => exact .inr (.inr fun v => rfl)
  | cons b u =>
      by_cases letter : Bytes.isLetter b = true
      · obtain ⟨scheme, rest, split, -, pass, stops⟩ := Bytes.exists_run isSchemeByte (b :: u)
        have first (v : Bytes) : ∃ c ∈ (scheme ++ (rest ++ v)).head?, Bytes.isLetter c = true := by
          rw [← List.append_assoc, ← split]
          exact ⟨b, rfl, letter⟩
        simp only [split, List.append_assoc]
        cases rest with
        | nil =>
            have colon (v : Bytes) : ∀ c ∈ (0x3A :: v : Bytes).head?, isSchemeByte c = false := by simp; decide
            have run (v : Bytes) := @autolink?_run scheme (0x3A :: v) (first (0x3A :: v)) pass (colon v)
            by_cases short : scheme.length < 2
            · exact .inr (.inr fun v => by rw [List.nil_append, run]; simp [short])
            · exact .inl fun v => by rw [List.nil_append, run]; simp [short]
        | cons c rest =>
            have run (v : Bytes) := @autolink?_run scheme (c :: rest ++ v) (first v) pass stops
            by_cases short : scheme.length < 2
            · exact .inr (.inr fun v => by rw [run]; simp [short])
            by_cases colon : c = 0x3A
            · subst colon
              exact .inr (.inl ⟨scheme, rest, rfl, fun v => by rw [run]; simp [short]⟩)
            · exact .inr (.inr fun v => by rw [run]; simp [colon])
      · exact .inr (.inr fun v => by simp [autolink?, letter])

theorem agree_autolink? (angle : 0x3C ∈ front) :
    Agree (u.length + 1) (autolink? (u ++ 0x3A :: (y ++ w))) (autolink? (u ++ 0x3A :: (y' ++ w))) := by
  obtain last | ⟨scheme, r, rfl, earlier⟩ | never := autolink?_cases u
  · rw [last, last]
    refine .of_behind (by simp; omega) fun none => ?_
    rw [exchangeable.autolink angle _ 0 _ (Option.map_eq_none_iff.mp none)]
    rfl
  · rw [earlier, earlier]
    obtain ⟨found, -, always⟩ | onward := autolinkEnd_cases r 0
    · rw [always, always]
      exact .refl _ _
    · simp only [onward, autolinkEnd_colon]
      refine .of_behind ?_ fun none => ?_
      · intro n found
        obtain ⟨k, ended, rfl⟩ := Option.map_eq_some_iff.mp found
        have behind := (autolinkEnd_getElem ended).1
        simp only [List.length_append, List.length_cons]
        omega
      · rw [exchangeable.autolink angle _ (0 + r.length + 1) _ (Option.map_eq_none_iff.mp none)]
        rfl
  · rw [never, never]
    exact .refl _ _

theorem codeSpanLength_exchange (tick : 0x60 ∈ front)
    (le : codeSpanLength (0x60 :: u ++ 0x3A :: (y ++ w)) ≤ u.length + 1) :
    codeSpanLength (0x60 :: u ++ 0x3A :: (y' ++ w)) = codeSpanLength (0x60 :: u ++ 0x3A :: (y ++ w)) := by
  have stops (v : Bytes) : ∀ b ∈ (0x3A :: v : Bytes).head?, (b == 0x60) = false := by simp
  obtain ⟨run, rest, split, known, ticks, -⟩ := Bytes.exists_run (· == 0x60) (0x60 :: u)
  have opening (v : Bytes) : (0x60 :: u ++ 0x3A :: v).takeWhile (· == 0x60) = run := by
    rw [takeWhile_append_of_stop (stops v), split, known]
  have behind (v : Bytes) : (0x60 :: u ++ 0x3A :: v).drop run.length = rest ++ 0x3A :: v := by
    rw [split, List.append_assoc, List.drop_left]
  have length := congrArg List.length split
  have some : run ≠ [] := by
    rintro rfl
    exact absurd (opening []) (by simp)
  rw [List.length_append, List.length_cons] at length
  simp only [codeSpanLength, opening, behind] at le ⊢
  obtain ⟨stop, -, always⟩ | onward :=
    @backticksEnd_cases run.length 0 rest run.length 0x3A (by decide)
  · rw [always, always]
  · have passed {z : Bytes} (free : 0x60 ∉ z) : backticksEnd run.length 0 run.length (rest ++ 0x3A :: (z ++ w)) =
        (backticksEnd run.length 0 0 w).map (· + (run.length + rest.length + 1 + z.length)) := by
      rw [onward, backticksEnd_free free _ _ (mt List.length_eq_zero_iff.mp some), ← backticksEnd_move, Nat.zero_add]
    rw [passed (exchangeable.old.code tick)] at le ⊢
    rw [passed (exchangeable.new.code tick)]
    cases known : backticksEnd run.length 0 0 w with
    | none => rfl
    | some stop =>
        rw [known, Option.map_some, Option.getD_some] at le
        omega

end

end Inline

end Colloquy.Document
