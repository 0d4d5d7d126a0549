import Colloquy.Document.Node
import Mathlib.Data.List.Pairwise

/-! # Well-nested nodes

Nodes are well nested when they form a forest: siblings lie one behind the other, and what a node holds
lies behind its first byte and before its end. `Nested` is the grammar of such lists, written from left to
right. Everything that readers of a document rely on follows from it by induction: nodes start one after the
other, two nodes are apart or one lies inside the other, only directives and containers hold nodes, and the
depth of a container counts the containers around it.
-/

namespace Colloquy

namespace Extent

/-- Whether `inner` lies inside `outer`. -/
def Contains (outer inner : Extent) : Prop := outer.start ≤ inner.start ∧ inner.stop ≤ outer.stop

/-- Whether two stretches have no byte in common. -/
def Apart (a b : Extent) : Prop := a.stop ≤ b.start ∨ b.stop ≤ a.start

instance (outer inner : Extent) : Decidable (outer.Contains inner) := inferInstanceAs (Decidable (_ ∧ _))

end Extent

namespace Document

/-- The kinds of nodes that may hold others. -/
def Kind.Holds (k : Kind) : Prop := k = .directive ∨ k = .container

/-- How many containers are open inside a node, when `depth` are open around it. -/
def Kind.depthInside (depth : Nat) (k : Kind) : Nat := if k = .container then depth + 1 else depth

/-- The nodes of the stretch from `lo` to `hi` inside `depth` containers: each is followed by those that it
holds, and then by those behind it. -/
inductive Nested : (lo hi depth : Nat) → List Node → Prop where
  | nil {lo hi depth : Nat} : lo ≤ hi → Nested lo hi depth []
  | cons {lo hi depth : Nat} {n : Node} {inner rest : List Node} : lo ≤ n.start →
      n.depth = (if n.kind = .container then depth else 0) → (n.kind.Holds ∨ inner = []) →
      Nested (n.start + 1) n.stop (n.kind.depthInside depth) inner → Nested n.stop hi depth rest →
      Nested lo hi depth (n :: (inner ++ rest))

namespace Nested

variable {lo mid hi depth : Nat} {ns : List Node}

theorem le (nested : Nested lo hi depth ns) : lo ≤ hi := by
  induction nested with
  | nil le => exact le
  | cons start depth holds inner rest ihInner ihRest => omega

theorem widen {lo' hi' : Nat} (nested : Nested lo hi depth ns) (left : lo' ≤ lo) (right : hi ≤ hi') :
    Nested lo' hi' depth ns := by
  induction nested generalizing lo' with
  | nil le => exact .nil (by omega)
  | cons start depth holds inner rest ihInner ihRest =>
      exact .cons (Nat.le_trans left start) depth holds inner (ihRest (Nat.le_refl _) right)

theorem append {ms : List Node} (nested : Nested lo mid depth ns) (behind : Nested mid hi depth ms) :
    Nested lo hi depth (ns ++ ms) := by
  induction nested with
  | nil le => exact behind.widen le (Nat.le_refl _)
  | cons start depth holds inner rest ihInner ihRest =>
      rw [List.cons_append, List.append_assoc]
      exact .cons start depth holds inner (ihRest behind)

theorem leaf {n : Node} (left : lo ≤ n.start) (lt : n.start < n.stop) (right : n.stop ≤ hi)
    (plain : n.kind ≠ .container) (flat : n.depth = 0) : Nested lo hi depth [n] := by
  have alone : Nested lo hi depth (n :: ([] ++ [])) :=
    .cons left (by rw [flat, if_neg plain]) (.inr rfl) (.nil lt) (.nil right)
  exact alone

/-! ## What follows from it -/

theorem bounds (nested : Nested lo hi depth ns) :
    ∀ n ∈ ns, lo ≤ n.start ∧ n.start < n.stop ∧ n.stop ≤ hi := by
  induction nested with
  | nil => simp
  | @cons lo hi depth n inner rest start _ _ nestedInner nestedRest ihInner ihRest =>
      have inside := nestedInner.le
      have behind := nestedRest.le
      intro m member
      rw [List.mem_cons, List.mem_append] at member
      obtain rfl | member | member := member
      · exact ⟨start, inside, behind⟩
      · have := ihInner m member
        omega
      · have := ihRest m member
        omega

/-- How a node relates to the nodes that follow it. -/
def Before (a b : Node) : Prop :=
  a.start < b.start ∧ (a.stop ≤ b.start ∨ (b.stop ≤ a.stop ∧ a.kind.Holds))

theorem pairwise_before (nested : Nested lo hi depth ns) : ns.Pairwise Before := by
  induction nested with
  | nil => exact .nil
  | @cons lo hi depth n inner rest start _ holds nestedInner nestedRest ihInner ihRest =>
      rw [List.pairwise_cons, List.pairwise_append]
      refine ⟨?_, ihInner, ihRest, ?_⟩
      · intro m member
        obtain member | member := List.mem_append.mp member
        · have inside := nestedInner.bounds m member
          obtain holds | rfl := holds
          · exact ⟨inside.1, .inr ⟨inside.2.2, holds⟩⟩
          · simp at member
        · have behind := nestedRest.bounds m member
          have := nestedInner.le
          exact ⟨by omega, .inl behind.1⟩
      · intro a memberA b memberB
        have inside := nestedInner.bounds a memberA
        have behind := nestedRest.bounds b memberB
        exact ⟨by omega, .inl (by omega)⟩

/-- Two nodes of the list are one and the same, or one of them comes before the other. -/
theorem before_or_after (nested : Nested lo hi depth ns) {a b : Node} (memberA : a ∈ ns)
    (memberB : b ∈ ns) : a = b ∨ Before a b ∨ Before b a := by
  have symmetric : Std.Symm fun a b => Before a b ∨ Before b a := ⟨fun _ _ => Or.symm⟩
  have related : ns.Pairwise fun a b => Before a b ∨ Before b a := nested.pairwise_before.imp .inl
  by_cases same : a = b
  · exact .inl same
  · exact .inr (related.forall memberA memberB same)

theorem apart_or_contains (nested : Nested lo hi depth ns) {a b : Node} (memberA : a ∈ ns)
    (memberB : b ∈ ns) :
    a.extent.Apart b.extent ∨ a.extent.Contains b.extent ∨ b.extent.Contains a.extent := by
  obtain rfl | ⟨lt, apart | ⟨le, -⟩⟩ | ⟨lt, apart | ⟨le, -⟩⟩ := nested.before_or_after memberA memberB
  · exact .inr (.inl ⟨Nat.le_refl _, Nat.le_refl _⟩)
  · exact .inl (.inl apart)
  · exact .inr (.inl ⟨Nat.le_of_lt lt, le⟩)
  · exact .inl (.inr apart)
  · exact .inr (.inr ⟨Nat.le_of_lt lt, le⟩)

/-- A node that contains another may hold nodes. -/
theorem holds_of_contains (nested : Nested lo hi depth ns) {a b : Node} (memberA : a ∈ ns)
    (memberB : b ∈ ns) (other : b ≠ a) (inside : a.extent.Contains b.extent) : a.kind.Holds := by
  have bounds := nested.bounds b memberB
  simp only [Extent.Contains, Node.extent] at inside
  obtain same | ⟨lt, apart | ⟨-, holds⟩⟩ | ⟨lt, -⟩ := nested.before_or_after memberA memberB
  · exact absurd same.symm other
  · omega
  · exact holds
  · omega

/-! ## Depths -/

/-- Whether `a` is a container around `n`. -/
def isAround (n a : Node) : Bool := decide (a.kind = .container ∧ a.start < n.start ∧ n.stop ≤ a.stop)

theorem isAround_of_inside {n a : Node} (lt : a.start < n.start) (le : n.stop ≤ a.stop) :
    isAround n a = decide (a.kind = .container) := by
  simp [isAround, lt, le]

theorem isAround_eq_false {n a : Node} (outside : n.start ≤ a.start ∨ a.stop < n.stop) :
    isAround n a = false := by
  simp only [isAround, decide_eq_false_iff_not]
  omega

theorem countP_isAround_eq_zero {n : Node} (outside : ∀ a ∈ ns, n.start ≤ a.start ∨ a.stop < n.stop) :
    ns.countP (isAround n) = 0 := by
  rw [List.countP_eq_zero]
  intro a member
  rw [isAround_eq_false (outside a member)]
  exact Bool.false_ne_true

theorem depth_eq (nested : Nested lo hi depth ns) {m : Node} (member : m ∈ ns) :
    m.depth = if m.kind = .container then depth + ns.countP (isAround m) else 0 := by
  induction nested with
  | nil => simp at member
  | @cons lo hi depth n inner rest start given _ nestedInner nestedRest ihInner ihRest =>
      have le := nestedInner.le
      rw [List.countP_cons, List.countP_append]
      rw [List.mem_cons, List.mem_append] at member
      -- What a node holds lies behind its start, and siblings do not reach into one another, so only the
      -- nodes on the way down to `m` count.
      obtain rfl | member | member := member
      · have held : inner.countP (isAround m) = 0 := countP_isAround_eq_zero fun a around => by
          have := nestedInner.bounds a around
          omega
        have later : rest.countP (isAround m) = 0 := countP_isAround_eq_zero fun a around => by
          have := nestedRest.bounds a around
          omega
        rw [held, later, isAround_eq_false (.inl (Nat.le_refl _))]
        exact given
      · have inside := nestedInner.bounds m member
        have later : rest.countP (isAround m) = 0 := countP_isAround_eq_zero fun a around => by
          have := nestedRest.bounds a around
          omega
        rw [later, isAround_of_inside inside.1 inside.2.2, ihInner member, Kind.depthInside]
        simp only [decide_eq_true_eq]
        split
        · split <;> omega
        · rfl
      · have behind := nestedRest.bounds m member
        have held : inner.countP (isAround m) = 0 := countP_isAround_eq_zero fun a around => by
          have := nestedInner.bounds a around
          omega
        rw [held, isAround_eq_false (.inr (by omega)), ihRest member]
        simp only [Bool.false_eq_true, if_false, Nat.zero_add, Nat.add_zero]

/-- A container is as deep as there are other containers that contain it; every other node has depth zero. -/
theorem depth_eq_length (nested : Nested lo hi 0 ns) {m : Node} (member : m ∈ ns) :
    m.depth = if m.kind = .container then
      (ns.filter fun a => a.kind = .container ∧ a ≠ m ∧ a.extent.Contains m.extent).length else 0 := by
  have same : ns.countP (isAround m) =
      ns.countP fun a => a.kind = .container ∧ a ≠ m ∧ a.extent.Contains m.extent := by
    refine List.countP_congr fun a around => ?_
    rw [isAround, decide_eq_true_iff, decide_eq_true_iff, Extent.Contains]
    constructor
    · rintro ⟨container, lt, le⟩
      exact ⟨container, by rintro rfl; omega, Nat.le_of_lt lt, le⟩
    · rintro ⟨container, other, start, le⟩
      obtain same | ⟨lt, -⟩ | ⟨lt, -⟩ := nested.before_or_after around member
      · exact absurd same other
      · exact ⟨container, lt, le⟩
      · exact absurd start (Nat.not_le.mpr lt)
  rw [nested.depth_eq member, Nat.zero_add, same, List.countP_eq_length_filter]

end Nested

end Document

end Colloquy
