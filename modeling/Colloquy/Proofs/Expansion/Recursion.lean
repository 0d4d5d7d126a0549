import Colloquy.Expansion
import Colloquy.Proofs.Outline.Inner
import Colloquy.Proofs.Outline.Query
import Mathlib.Data.List.Forall2

/-! # Expansion as a recursion

Expansion looks into a directive only while what the directive holds is shorter than the text. This always holds,
so expansion is a plain recursion: each directive becomes its `replacement`, and the pieces are put between the
stretches of text that are kept. `Call` says which expansions one expansion asks for. Each has less room, or as
much room and a shorter text, so there is no endless chain of them.

Expansion looks for directives in a text with a line feed put in front, and moves what it finds one byte back.
The line feed makes a line of its own, so nothing starts at it. What is left after nested directives are dropped
lies in the text, one directive behind the other, and the contents of each are shorter than the text.
-/

namespace Colloquy

/-! ## A line feed in front -/

namespace Document

theorem Line.ofText_lf (start : Nat) (t : Bytes) :
    Line.ofText start (Bytes.lf :: t) = ⟨start, [], start + 1⟩ :: Line.ofText (start + 1) t := by
  rw [ofText, Bytes.splitOn, if_pos (by simp), layOut.eq_3 _ _ _ (Bytes.splitOn_ne_nil t _)]
  rfl

theorem Header.ofText?_lf (t : Bytes) : Header.ofText? (Bytes.lf :: t) = none := by
  rw [Header.ofText?, Line.ofText_lf]
  rfl

/-- An empty line in front holds no node. -/
theorem bodyNodes_lf (t : Bytes) : bodyNodes (Bytes.lf :: t) 0 = bodyNodes (Bytes.lf :: t) 1 := by
  rw [bodyNodes, List.drop_zero, Line.ofText_lf]
  rfl

theorem nodes_lf (t : Bytes) : (ofText (Bytes.lf :: t)).nodes = bodyNodes (Bytes.lf :: t) 1 := by
  rw [ofText, Header.ofText?_lf]
  exact bodyNodes_lf t

theorem nested_lf (t : Bytes) : Nested 1 (t.length + 1) 0 (ofText (Bytes.lf :: t)).nodes := by
  have le : 1 ≤ (Bytes.lf :: t).length := Nat.le_add_left _ _
  rw [nodes_lf]
  exact nested_bodyNodes le

end Document

/-! ## Where a directive lies -/

namespace Directive

/-- The parts of a directive lie in a text of `length` bytes: its contents behind its first byte, and itself
before the end. -/
structure Placed (length : Nat) (d : Directive) : Prop where
  start_lt : d.extent.start < d.inner.start
  inner_le : d.inner.start ≤ d.inner.stop
  inner_le_stop : d.inner.stop ≤ d.extent.stop
  stop_le : d.extent.stop ≤ length

theorem Placed.lt {length : Nat} {d : Directive} (placed : d.Placed length) : d.extent.start < d.extent.stop :=
  Nat.lt_of_lt_of_le placed.start_lt (Nat.le_trans placed.inner_le placed.inner_le_stop)

theorem placed_ofNode {text : Bytes} {n : Document.Node} (lt : n.start < n.stop) (le : n.stop ≤ text.length) :
    (ofNode text n).Placed text.length := by
  have length := Bytes.length_slice n.start le
  unfold ofNode
  simp only
  split
  · exact ⟨lt, Nat.le_refl _, Nat.le_refl _, le⟩
  · rename_i opening found
    obtain ⟨inside, here⟩ := List.findIdx?_eq_some_iff_getElem.mp found
    have opened : ((text.slice n.start n.stop).drop opening).head? = some 0x5B := by
      rw [List.head?_drop, List.getElem?_eq_getElem inside]
      simpa using here.1
    split
    · rename_i close closed
      have bounds := Document.Bracket.square?_bounds opened closed
      rw [List.length_drop] at bounds
      constructor <;> simp only [Document.Node.extent] <;> omega
    · constructor <;> simp only [Document.Node.extent] <;> omega

end Directive

namespace Outline

theorem sublist_outermostFrom (reach : Int) (ds : List Directive) : (outermostFrom reach ds).Sublist ds := by
  fun_induction outermostFrom reach ds with
  | case1 => exact .slnil
  | case2 reach d rest _ ih => exact .cons _ ih
  | case3 reach d rest _ ih => exact .cons_cons _ ih

theorem le_start_outermostFrom {reach : Int} {ds : List Directive}
    (nonempty : ∀ d ∈ ds, d.extent.start ≤ d.extent.stop) :
    ∀ d ∈ outermostFrom reach ds, reach ≤ d.extent.start := by
  fun_induction outermostFrom reach ds with
  | case1 => simp
  | case2 reach d rest _ ih => exact ih fun e member => nonempty e (List.mem_cons_of_mem _ member)
  | case3 reach d rest late ih =>
      have lt := nonempty d List.mem_cons_self
      intro e member
      obtain _ | ⟨_, member⟩ := member
      · exact Int.not_lt.mp late
      · have := ih (fun e member => nonempty e (List.mem_cons_of_mem _ member)) e member
        omega

/-- What is kept stands one behind the other. -/
theorem pairwise_outermostFrom {reach : Int} {ds : List Directive}
    (nonempty : ∀ d ∈ ds, d.extent.start ≤ d.extent.stop) :
    (outermostFrom reach ds).Pairwise fun a b => a.extent.stop ≤ b.extent.start := by
  fun_induction outermostFrom reach ds with
  | case1 => exact .nil
  | case2 reach d rest _ ih => exact ih fun e member => nonempty e (List.mem_cons_of_mem _ member)
  | case3 reach d rest _ ih =>
      have tail : ∀ e ∈ rest, e.extent.start ≤ e.extent.stop := fun e member =>
        nonempty e (List.mem_cons_of_mem _ member)
      refine List.pairwise_cons.mpr ⟨?_, ih tail⟩
      intro e member
      have := le_start_outermostFrom tail e member
      omega

end Outline

namespace Expansions

/-- A directive of a text stands in the text with the line feed one byte further on. -/
theorem exists_of_mem_directives {text : Bytes} {d : Directive} (member : d ∈ directives text) :
    ∃ n ∈ (Document.ofText (Bytes.lf :: text)).nodesOf .directive,
      1 ≤ n.start ∧ n.start < n.stop ∧ n.stop ≤ text.length + 1 ∧ d = { Directive.ofNode (Bytes.lf :: text) n with
        extent := back n.extent, inner := back (Directive.ofNode (Bytes.lf :: text) n).inner } := by
  obtain ⟨d', kept, rfl⟩ := List.mem_map.mp member
  obtain ⟨n, node, rfl⟩ := List.mem_map.mp ((Outline.sublist_outermostFrom _ _).subset kept)
  obtain ⟨start, lt, le⟩ := (Document.nested_lf text).bounds n (List.mem_of_mem_filter node)
  exact ⟨n, node, start, lt, le, rfl⟩

theorem placed_of_mem_directives {text : Bytes} {d : Directive} (member : d ∈ directives text) :
    d.Placed text.length := by
  obtain ⟨n, -, start, lt, le, rfl⟩ := exists_of_mem_directives member
  have le : n.stop ≤ (Bytes.lf :: text).length := le
  obtain ⟨first, second, third, -⟩ := Directive.placed_ofNode lt le
  simp only [Directive.ofNode, Document.Node.extent] at first second third
  constructor <;> simp only [back, Document.Node.extent, Directive.ofNode] <;> omega

theorem pairwise_directives (text : Bytes) :
    (directives text).Pairwise fun a b => a.extent.stop ≤ b.extent.start := by
  have row : (Outline.outermost (Outline.ofText (Bytes.lf :: text)).directives).Pairwise fun a b =>
      a.extent.stop ≤ b.extent.start := by
    refine Outline.pairwise_outermostFrom fun d member => ?_
    obtain ⟨n, node, rfl⟩ := List.mem_map.mp member
    have bounds := (Document.nested_lf text).bounds n (List.mem_of_mem_filter node)
    exact Nat.le_of_lt bounds.2.1
  refine List.pairwise_map.mpr (row.imp fun le => ?_)
  exact Nat.sub_le_sub_right le 1

/-- What stands between the brackets of a directive is shorter than the text. -/
theorem length_inner_lt {text : Bytes} {d : Directive} (member : d ∈ directives text) :
    (d.inner.of text).length < text.length := by
  have placed := placed_of_mem_directives member
  rw [Extent.of, Bytes.length_slice _ (Nat.le_trans placed.inner_le_stop placed.stop_le)]
  have := placed.start_lt
  have := placed.inner_le
  have := placed.inner_le_stop
  have := placed.stop_le
  omega

end Expansions

/-! ## Traversals that may fail -/

section

variable {ε α β γ : Type} {f : α → Except ε β} {xs : List α}

theorem map_eq_ok_iff {c : Except ε α} {g : α → β} {b : β} : c.map g = .ok b ↔ ∃ a, c = .ok a ∧ g a = b := by
  cases c <;> simp [Except.map]

theorem map_eq_error_iff {c : Except ε α} {g : α → β} {e : ε} : c.map g = .error e ↔ c = .error e := by
  cases c <;> simp [Except.map]

theorem mapM_cons_of_error {x : α} {e : ε} (failed : f x = .error e) : (x :: xs).mapM f = .error e := by
  rw [List.mapM_cons, failed]
  rfl

theorem mapM_cons_of_ok {x : α} {y : β} (done : f x = .ok y) : (x :: xs).mapM f = (xs.mapM f).map (y :: ·) := by
  rw [List.mapM_cons, done]
  cases xs.mapM f <;> rfl

theorem mapM_congr_mem {g : α → Except ε β} (same : ∀ x ∈ xs, f x = g x) : xs.mapM f = xs.mapM g := by
  induction xs with
  | nil => rfl
  | cons x xs ih =>
      rw [List.mapM_cons, List.mapM_cons, same x List.mem_cons_self,
        ih fun y member => same y (List.mem_cons_of_mem _ member)]

theorem mapM_eq_ok_iff {ys : List β} : xs.mapM f = .ok ys ↔ List.Forall₂ (fun x y => f x = .ok y) xs ys := by
  induction xs generalizing ys with
  | nil =>
      rw [List.forall₂_nil_left_iff]
      exact ⟨fun done => (Except.ok.inj done).symm, fun none => none ▸ rfl⟩
  | cons x xs ih =>
      constructor
      · intro done
        cases head : f x with
        | error e =>
            rw [mapM_cons_of_error head] at done
            cases done
        | ok y =>
            rw [mapM_cons_of_ok head] at done
            obtain ⟨ys', tail, rfl⟩ := map_eq_ok_iff.mp done
            exact .cons head (ih.mp tail)
      · intro related
        cases related with
        | cons head tail =>
            rw [mapM_cons_of_ok head, ih.mpr tail]
            rfl

theorem mapM_eq_ok_of_imp {g : α → Except ε β} {ys : List β} (keep : ∀ x ∈ xs, ∀ y, f x = .ok y → g x = .ok y)
    (done : xs.mapM f = .ok ys) : xs.mapM g = .ok ys := by
  rw [mapM_eq_ok_iff] at done ⊢
  induction done with
  | nil => exact .nil
  | cons head _ ih =>
      obtain ⟨first, others⟩ := List.forall_mem_cons.mp keep
      exact .cons (first _ head) (ih others)

/-- A traversal fails with the first failure it meets. -/
theorem mapM_eq_error_iff {e : ε} : xs.mapM f = .error e ↔
    ∃ before x after, xs = before ++ x :: after ∧ (∀ b ∈ before, ∃ y, f b = .ok y) ∧ f x = .error e := by
  constructor
  · intro failed
    induction xs with
    | nil => cases failed
    | cons x xs ih =>
        cases head : f x with
        | error e' =>
            rw [mapM_cons_of_error head] at failed
            cases failed
            exact ⟨[], x, xs, rfl, by simp, head⟩
        | ok y =>
            rw [mapM_cons_of_ok head, map_eq_error_iff] at failed
            obtain ⟨before, z, after, rfl, succeed, here⟩ := ih failed
            exact ⟨x :: before, z, after, rfl, List.forall_mem_cons.mpr ⟨⟨y, head⟩, succeed⟩, here⟩
  · rintro ⟨before, x, after, rfl, succeed, here⟩
    induction before with
    | nil => exact mapM_cons_of_error here
    | cons b before ih =>
        obtain ⟨⟨y, head⟩, succeed⟩ := List.forall_mem_cons.mp succeed
        rw [List.cons_append, mapM_cons_of_ok head, ih succeed]
        rfl

/-- A traversal that pairs each result with something known beforehand. -/
theorem mapM_map_pair (known : α → γ) (xs : List α) :
    xs.mapM (fun x => (f x).map (known x, ·)) = (xs.mapM f).map ((xs.map known).zip ·) := by
  induction xs with
  | nil => rfl
  | cons x xs ih =>
      rw [List.mapM_cons, List.mapM_cons, ih]
      cases f x with
      | error e => rfl
      | ok y => cases xs.mapM f <;> rfl

end

namespace Expansions

/-- A directive with other contents. -/
def refilled (text : Bytes) (d : Directive) (contents : Bytes) : Bytes :=
  text.slice d.extent.start d.inner.start ++ contents ++ text.slice d.inner.stop d.extent.stop

/-- What one directive of a text becomes. -/
def replacement (x : Expansions) (room : Nat) (text : Bytes) (d : Directive) : Except ExpansionFault Bytes :=
  match x.invoked? d.key (d.inner.of text) with
  | some m =>
    match room with
    | 0 => .error (.tooDeep m.name)
    | room + 1 => x.expand room (body m (argument d.key (d.inner.of text)))
  | none =>
    if d.key = Builtin.macroKey then .error (.unknown (d.inner.of text).trim)
    else (x.expand room (d.inner.of text)).map (refilled text d)

/-- The text from `last` on, with the directives replaced. -/
def stitched (text : Bytes) (last : Nat) (ds : List Directive) (pieces : List Bytes) : Bytes :=
  stitch text last ((ds.map Directive.extent).zip pieces)

/-- Expansion replaces each directive, from left to right, and keeps the rest of the text. -/
theorem expand_eq (x : Expansions) (room : Nat) (text : Bytes) :
    x.expand room text =
      ((directives text).mapM (x.replacement room text)).map (stitched text 0 (directives text)) := by
  rw [expand]
  refine (congrArg (· >>= fun pieces => pure (stitch text 0 pieces)) (mapM_congr_mem
    (g := fun d => (x.replacement room text d).map (d.extent, ·)) ?_)).trans ?_
  · intro d member
    have shorter := length_inner_lt member
    unfold replacement
    dsimp only
    cases x.invoked? d.key (d.inner.of text) with
    | some m =>
        cases room with
        | zero => rfl
        | succ room => cases x.expand room (body m (argument d.key (d.inner.of text))) <;> rfl
    | none =>
        by_cases isMacro : d.key = Builtin.macroKey
        · simp [isMacro, Except.map]
        · simp only [beq_iff_eq, isMacro, if_false, shorter, dite_true]
          cases x.expand room (d.inner.of text) <;> rfl
  · rw [mapM_map_pair]
    cases (directives text).mapM (x.replacement room text) <;> rfl

theorem expand_eq_ok_iff {x : Expansions} {room : Nat} {text out : Bytes} : x.expand room text = .ok out ↔
    ∃ pieces, (directives text).mapM (x.replacement room text) = .ok pieces ∧
      stitched text 0 (directives text) pieces = out := by
  rw [expand_eq, map_eq_ok_iff]

/-- A directive is replaced by what it invokes, if there is room, or it stays with its contents expanded. -/
theorem replacement_eq_ok_iff {x : Expansions} {room : Nat} {text piece : Bytes} {d : Directive} :
    x.replacement room text d = .ok piece ↔
      (∃ m room', x.invoked? d.key (d.inner.of text) = some m ∧ room = room' + 1 ∧
        x.expand room' (body m (argument d.key (d.inner.of text))) = .ok piece) ∨
      (x.invoked? d.key (d.inner.of text) = none ∧ d.key ≠ Builtin.macroKey ∧
        ∃ contents, x.expand room (d.inner.of text) = .ok contents ∧ refilled text d contents = piece) := by
  unfold replacement
  cases x.invoked? d.key (d.inner.of text) with
  | some m => cases room <;> simp
  | none =>
      by_cases isMacro : d.key = Builtin.macroKey
      · simp [isMacro]
      · simp [isMacro, map_eq_ok_iff]

/-- The expansions that one expansion asks for: that of an invoked body, one level deeper, and that of the
contents of a directive which stays. -/
inductive Call (x : Expansions) : Nat × Bytes → Nat × Bytes → Prop where
  | invoked {room : Nat} {text : Bytes} {d : Directive} {m : Macro} : d ∈ directives text →
      x.invoked? d.key (d.inner.of text) = some m →
      Call x (room, body m (argument d.key (d.inner.of text))) (room + 1, text)
  | contents {room : Nat} {text : Bytes} {d : Directive} : d ∈ directives text →
      x.invoked? d.key (d.inner.of text) = none → d.key ≠ Builtin.macroKey →
      Call x (room, d.inner.of text) (room, text)

/-- What an expansion shrinks from call to call. -/
def measure (c : Nat × Bytes) : Nat × Nat := (c.1, c.2.length)

theorem Call.decreases {x : Expansions} {a b : Nat × Bytes} (call : Call x a b) :
    Prod.Lex (· < ·) (· < ·) (measure a) (measure b) := by
  cases call with
  | invoked => exact .left _ _ (Nat.lt_succ_self _)
  | contents member => exact .right _ (length_inner_lt member)

theorem wellFounded_call (x : Expansions) : WellFounded (Call x) :=
  Subrelation.wf (fun call => call.decreases) (InvImage.wf measure (Prod.lex Nat.lt_wfRel Nat.lt_wfRel).wf)

end Expansions

end Colloquy
