import Colloquy.Proofs.Outline.Turn

/-! # Queries agree with exhaustive search

A query looks at part of a list only: it bisects by where elements end, or stops at the first one that starts
too late. Links, literal blocks and turns stand in a row, and the starts of directives increase, so nothing is
missed: each query finds what a search through the whole list finds. Directives nest, and those kept as
outermost are the ones that lie in no other.
-/

namespace Colloquy

deriving instance ReflBEq, LawfulBEq for Speaker

/-! ## Searching a list -/

section

variable {α : Type} {xs : List α} {p q : α → Bool}

/-- When the elements that pass `q` come first, the first element that passes `p` decides. -/
theorem filter_find?_eq_find? (first : xs.Pairwise fun a b => q b = true → q a = true) :
    (xs.find? p).filter q = xs.find? fun x => q x && p x := by
  induction xs with
  | nil => rfl
  | cons x xs ih =>
      obtain ⟨head, tail⟩ := List.pairwise_cons.mp first
      by_cases passes : p x = true
      · rw [List.find?_cons_of_pos passes]
        by_cases early : q x = true
        · rw [Option.filter_some_pos early, List.find?_cons_of_pos (by simp [early, passes])]
        · have late : ∀ y ∈ x :: xs, ¬ (q y && p y) = true := by
            intro y member
            obtain _ | ⟨_, member⟩ := member
            · simp [early]
            · have : ¬ q y = true := fun before => early (head y member before)
              simp [this]
          rw [Option.filter_some_neg (by simpa using early), List.find?_eq_none.mpr late]
      · rw [List.find?_cons_of_neg passes, List.find?_cons_of_neg (by simp [passes]), ih tail]

theorem filter_eq_toList_find? (apart : xs.Pairwise fun a b => ¬ (p a = true ∧ p b = true)) :
    xs.filter p = (xs.find? p).toList := by
  induction xs with
  | nil => rfl
  | cons x xs ih =>
      obtain ⟨head, tail⟩ := List.pairwise_cons.mp apart
      by_cases passes : p x = true
      · have others : ∀ y ∈ xs, ¬ p y = true := fun y member also => head y member ⟨passes, also⟩
        rw [List.filter_cons_of_pos passes, List.find?_cons_of_pos passes, List.filter_eq_nil_iff.mpr others]
        rfl
      · rw [List.filter_cons_of_neg passes, List.find?_cons_of_neg passes, ih tail]

theorem takeWhile_eq_filter (first : xs.Pairwise fun a b => q b = true → q a = true) :
    xs.takeWhile q = xs.filter q := by
  induction xs with
  | nil => rfl
  | cons x xs ih =>
      obtain ⟨head, tail⟩ := List.pairwise_cons.mp first
      by_cases early : q x = true
      · rw [List.takeWhile_cons_of_pos early, List.filter_cons_of_pos early, ih tail]
      · have late : ∀ y ∈ xs, ¬ q y = true := fun y member before => early (head y member before)
        rw [List.takeWhile_cons_of_neg early, List.filter_cons_of_neg early, List.filter_eq_nil_iff.mpr late]

end

/-! ## Stretches in a row -/

namespace Extent

/-- Whether `a` ends before `b` starts. -/
def Precedes (a b : Extent) : Prop := a.start < a.stop ∧ a.stop ≤ b.start ∧ b.start < b.stop

/-- Whether `offset` lies in the stretch, whose end is excluded. -/
def holds (e : Extent) (offset : Int) : Bool := e.start ≤ offset && offset < e.stop

variable {α : Type} {xs : List α} (extent : α → Extent)

theorem pairwise_not_holds (row : xs.Pairwise fun a b => (extent a).Precedes (extent b)) (offset : Int) :
    xs.Pairwise fun a b => ¬ ((extent a).holds offset = true ∧ (extent b).holds offset = true) := by
  refine row.imp fun {a b} precedes => ?_
  simp only [Precedes, holds, Bool.and_eq_true, decide_eq_true_eq] at *
  omega

/-- Along a row, bisection by the ends of stretches finds the first one around an offset. -/
theorem filter_firstPassing? (row : xs.Pairwise fun a b => (extent a).Precedes (extent b)) (offset : Int)
    (reaches : Nat → Bool) (mono : ∀ m n, m ≤ n → reaches m = true → reaches n = true) :
    (firstPassing? xs.toArray fun x => reaches (extent x).stop).filter
        (fun x => ((extent x).start : Int) ≤ offset) =
      xs.find? fun x => ((extent x).start : Int) ≤ offset && reaches (extent x).stop := by
  have ends : xs.Pairwise fun a b => reaches (extent a).stop = true → reaches (extent b).stop = true :=
    row.imp fun precedes => mono _ _ (by simp only [Precedes] at precedes; omega)
  have starts : xs.Pairwise fun a b =>
      decide (((extent b).start : Int) ≤ offset) = true → decide (((extent a).start : Int) ≤ offset) = true := by
    refine row.imp fun precedes before => ?_
    simp only [Precedes, decide_eq_true_eq] at *
    omega
  rw [firstPassing?_eq_find? ends, filter_find?_eq_find? starts]

end Extent

namespace Document

variable {lo hi depth : Nat} {ns : List Node}

/-- Nodes of a kind that holds nothing stand in a row. -/
theorem Nested.precedes (nested : Nested lo hi depth ns) (kind : Kind) (plain : ¬ kind.Holds) :
    (ns.filter fun n => n.kind == kind).Pairwise fun a b => a.extent.Precedes b.extent := by
  refine (nested.pairwise_before.sublist List.filter_sublist).imp_of_mem ?_
  rintro a b memberA memberB ⟨lt, behind⟩
  obtain ⟨memberA, sameA⟩ := List.mem_filter.mp memberA
  obtain ⟨memberB, -⟩ := List.mem_filter.mp memberB
  have boundsA := nested.bounds a memberA
  have boundsB := nested.bounds b memberB
  rw [eq_of_beq sameA] at behind
  obtain apart | ⟨-, holds⟩ := behind
  · exact ⟨boundsA.2.1, apart, boundsB.2.1⟩
  · exact absurd holds plain

end Document

namespace Turn.Tile

variable {start stop : Nat} {ts : List Turn}

theorem precedes (tile : Tile stop start ts) : ts.Pairwise fun a b => a.extent.Precedes b.extent := by
  induction tile with
  | nil => exact .nil
  | cons lt rest ih =>
      refine List.pairwise_cons.mpr ⟨?_, ih⟩
      intro t member
      exact ⟨lt, rest.bounds t member⟩

theorem stop_le (tile : Tile stop start ts) : ∀ t ∈ ts, t.extent.stop ≤ stop := by
  induction tile with
  | nil => simp
  | cons lt rest ih =>
      intro t member
      obtain _ | ⟨_, member⟩ := member
      · exact rest.le
      · exact ih t member

theorem stop_of_getLast? (tile : Tile stop start ts) {t : Turn} (last : ts.getLast? = some t) :
    t.extent.stop = stop := by
  induction tile with
  | nil => simp at last
  | @cons u us lt rest ih =>
      cases us with
      | nil =>
          obtain rfl : u = t := by simpa using last
          exact rest.eq_nil_iff.mp rfl
      | cons v us => exact ih (by simpa using last)

end Turn.Tile

namespace Outline

open Document

theorem precedes_links (text : Bytes) :
    (ofText text).links.Pairwise fun a b => a.extent.Precedes b.extent := by
  have nested := nested_bodyNodes (body_le text)
  exact List.pairwise_map.mpr (nested.precedes .link (by simp [Kind.Holds]))

theorem precedes_closedBlocks (text tag : Bytes) :
    (closedBlocks (Document.ofText text) tag).Pairwise fun a b => a.Precedes b := by
  have nested := nested_bodyNodes (body_le text)
  refine List.Pairwise.filterMap _ ?_ (nested.precedes .html (by simp [Kind.Holds]))
  intro a b precedes e foundA e' foundB
  simp only [Option.ite_none_right_eq_some, Option.some.injEq] at foundA foundB
  rw [← foundA.2, ← foundB.2]
  exact precedes

/-- Of stretches in a row, the one found is the only one that holds the offset. -/
theorem filter_holds_eq_toList {es : List Extent} (row : es.Pairwise fun a b => a.Precedes b) (offset : Int) :
    es.filter (fun e => e.holds offset) = (extentAt? es offset).toList := by
  have found : extentAt? es offset = es.find? fun e => e.holds offset :=
    Extent.filter_firstPassing? id row offset (fun stop => offset < (stop : Int)) (by
      intro m n le
      simp only [decide_eq_true_eq]
      omega)
  have alone := Extent.pairwise_not_holds id row offset
  rw [found]
  exact filter_eq_toList_find? alone

/-! ## Turns -/

/-- Whether a turn owns an offset: the last one also owns the end of the text. -/
def owns (ts : List Turn) (offset : Int) (t : Turn) : Bool :=
  t.extent.holds offset || decide (ts.getLast? = some t ∧ offset = t.extent.stop)

/-- No two turns own the same offset. -/
theorem pairwise_not_owns {start stop : Nat} {ts : List Turn} (tile : Turn.Tile stop start ts) (offset : Int) :
    ts.Pairwise fun a b => ¬ (owns ts offset a = true ∧ owns ts offset b = true) := by
  refine tile.precedes.imp_of_mem ?_
  rintro a b - memberB precedes ⟨ownsA, ownsB⟩
  have inside := tile.stop_le b memberB
  simp only [owns, Extent.Precedes, Extent.holds, Bool.or_eq_true, Bool.and_eq_true, decide_eq_true_eq] at *
  obtain heldA | ⟨lastA, -⟩ := ownsA
  · omega
  · -- Behind the last turn there is no other.
    have := tile.stop_of_getLast? lastA
    omega

theorem turnAt?_eq_find? {o : Outline} {start stop : Nat} (tile : Turn.Tile stop start o.turns) (offset : Int) :
    o.turnAt? offset = o.turns.find? (owns o.turns offset) := by
  have only := filter_eq_toList_find? (pairwise_not_owns tile offset)
  have found_of_owns : ∀ t ∈ o.turns, owns o.turns offset t = true →
      o.turns.find? (owns o.turns offset) = some t := by
    intro t member isOwn
    have listed := List.mem_filter.mpr ⟨member, isOwn⟩
    rw [only, Option.mem_toList] at listed
    exact listed
  have held := Extent.filter_firstPassing? Turn.extent tile.precedes offset
    (fun stop => offset < (stop : Int)) (by
      intro m n le
      simp only [decide_eq_true_eq]
      omega)
  unfold turnAt?
  rw [held]
  split
  · rename_i t found
    have holds : t.extent.holds offset = true := by
      have passed := List.find?_some found
      exact passed
    exact (found_of_owns t (List.mem_of_find?_eq_some found) (by simp [owns, holds])).symm
  · rename_i none
    have outside : ∀ t ∈ o.turns, ¬ t.extent.holds offset = true := List.find?_eq_none.mp none
    cases last : o.turns.getLast?.filter fun t => offset == (t.extent.stop : Int) with
    | some t =>
        obtain ⟨isLast, atEnd⟩ := Option.filter_eq_some_iff.mp last
        exact (found_of_owns t (List.mem_of_getLast? isLast) (by simp [owns, isLast, eq_of_beq atEnd])).symm
    | none =>
        refine (List.find?_eq_none.mpr fun t member isOwn => ?_).symm
        simp only [owns, Bool.or_eq_true, decide_eq_true_eq] at isOwn
        obtain holds | ⟨isLast, atEnd⟩ := isOwn
        · exact outside t member holds
        · simp [isLast, atEnd] at last

/-- In front of the end of a text, an offset is inside an assistant's turn if one holds it. -/
theorem insideAssistant_iff {text : Bytes} {offset : Int} (inside : offset < text.length) :
    (ofText text).insideAssistant offset = true ↔
      ∃ t ∈ (ofText text).turns, t.speaker = .assistant ∧ t.extent.holds offset = true := by
  have tile : Turn.Tile text.length (ofText text).body (ofText text).turns :=
    tile_turnsFrom ((nested_bodyNodes (body_le text)).row rfl)
  have owner : ∀ t, owns (ofText text).turns offset t = t.extent.holds offset := by
    intro t
    have ahead : ¬ ((ofText text).turns.getLast? = some t ∧ offset = t.extent.stop) := by
      rintro ⟨last, rfl⟩
      have := tile.stop_of_getLast? last
      omega
    rw [owns, decide_eq_false ahead, Bool.or_false]
  have held : (ofText text).turns.filter (fun t => t.extent.holds offset) =
      ((ofText text).turnAt? offset).toList := by
    rw [turnAt?_eq_find? tile, ← filter_eq_toList_find? (pairwise_not_owns tile offset)]
    exact List.filter_congr fun t _ => (owner t).symm
  have found : ∀ t, (ofText text).turnAt? offset = some t ↔
      t ∈ (ofText text).turns ∧ t.extent.holds offset = true := by
    intro t
    have listed := congrArg (t ∈ ·) held
    simpa only [List.mem_filter, Option.mem_toList, Option.mem_def, eq_iff_iff] using listed.symm
  calc (ofText text).insideAssistant offset = true
      ↔ ∃ t, (ofText text).turnAt? offset = some t ∧ t.speaker = .assistant := by
        unfold insideAssistant
        cases (ofText text).turnAt? offset <;> simp
    _ ↔ _ := by simp only [found, and_assoc, and_comm]

/-! ## Directives -/

/-- What holds between two directives in the order of a document: they are apart, or the later one lies inside
the earlier one. -/
def Follows (a b : Directive) : Prop :=
  a.extent.start < b.extent.start ∧ b.extent.start < b.extent.stop ∧
    (a.extent.stop ≤ b.extent.start ∨ b.extent.stop ≤ a.extent.stop)

theorem follows_directives (text : Bytes) : (ofText text).directives.Pairwise Follows := by
  have nested := nested_bodyNodes (body_le text)
  refine List.pairwise_map.mpr ((nested.pairwise_before.sublist List.filter_sublist).imp_of_mem ?_)
  rintro a b - memberB ⟨lt, behind⟩
  have bounds := nested.bounds b (List.mem_of_mem_filter memberB)
  exact ⟨lt, bounds.2.1, behind.imp_right And.left⟩

/-- No two directives start at the same place. -/
theorem eq_of_start {text : Bytes} {a b : Directive} (first : a ∈ (ofText text).directives)
    (second : b ∈ (ofText text).directives) (same : a.extent.start = b.extent.start) : a = b := by
  by_contra other
  have apart : (ofText text).directives.Pairwise fun a b => a.extent.start ≠ b.extent.start :=
    (follows_directives text).imp fun follows => Nat.ne_of_lt follows.1
  have symm : Std.Symm fun a b : Directive => a.extent.start ≠ b.extent.start := ⟨fun _ _ => Ne.symm⟩
  exact apart.forall first second other same

/-- The directive that the search keeps stands before all that are no shorter and behind longer ones only. -/
theorem exists_foldl_shorter (b : Directive) (ds : List Directive) :
    ∃ d before after, ds.foldl shorter (some b) = some d ∧ b :: ds = before ++ d :: after ∧
      (∀ e ∈ before, d.extent.length < e.extent.length) ∧ ∀ e ∈ after, d.extent.length ≤ e.extent.length := by
  induction ds generalizing b with
  | nil => exact ⟨b, [], [], rfl, rfl, by simp, by simp⟩
  | cons c ds ih =>
      rw [List.foldl_cons, shorter]
      split
      · rename_i lt
        obtain ⟨d, before, after, kept, split, longer, rest⟩ := ih c
        refine ⟨d, b :: before, after, kept, by rw [split, List.cons_append], ?_, rest⟩
        intro e member
        -- The directive kept is `c` or a shorter one, and `c` is shorter than `b`.
        have le : d.extent.length ≤ c.extent.length := by
          cases before with
          | nil =>
              obtain rfl : c = d := (List.cons.inj split).1
              exact Nat.le_refl _
          | cons head before =>
              obtain rfl : c = head := (List.cons.inj split).1
              exact Nat.le_of_lt (longer c List.mem_cons_self)
        obtain _ | ⟨_, member⟩ := member
        · omega
        · exact longer e member
      · rename_i notLt
        obtain ⟨d, before, after, kept, split, longer, rest⟩ := ih b
        cases before with
        | nil =>
            obtain ⟨rfl, rfl⟩ := List.cons.inj split
            refine ⟨b, [], c :: ds, kept, rfl, by simp, ?_⟩
            intro e member
            obtain _ | ⟨_, member⟩ := member
            · omega
            · exact rest e member
        | cons head before =>
            obtain ⟨rfl, rfl⟩ := List.cons.inj split
            refine ⟨d, b :: c :: before, after, kept, rfl, ?_, rest⟩
            have lt := longer b List.mem_cons_self
            intro e member
            obtain _ | ⟨_, _ | ⟨_, member⟩⟩ := member
            · exact lt
            · omega
            · exact longer e (List.mem_cons_of_mem _ member)

/-- The search keeps the first of the shortest directives. -/
theorem foldl_shorter_eq_find? (ds : List Directive) :
    ds.foldl shorter none = ds.find? fun d => ds.all fun e => d.extent.length ≤ e.extent.length := by
  cases ds with
  | nil => rfl
  | cons b ds =>
      obtain ⟨d, before, after, kept, split, longer, rest⟩ := exists_foldl_shorter b ds
      rw [List.foldl_cons, shorter, kept, split, List.find?_append]
      have passed : ∀ e ∈ before,
          ¬ ((before ++ d :: after).all fun e' => e.extent.length ≤ e'.extent.length) = true := by
        intro e member all
        have le := List.all_eq_true.mp all d (by simp)
        have lt := longer e member
        simp only [decide_eq_true_eq] at le
        omega
      have shortest : ((before ++ d :: after).all fun e => d.extent.length ≤ e.extent.length) = true := by
        simp only [List.all_eq_true, List.mem_append, List.mem_cons, decide_eq_true_eq]
        rintro e (member | rfl | member)
        · exact Nat.le_of_lt (longer e member)
        · exact Nat.le_refl _
        · exact rest e member
      rw [List.find?_eq_none.mpr passed, List.find?_cons, shortest]
      rfl

theorem foldl_shorter_eq_none_iff {ds : List Directive} : ds.foldl shorter none = none ↔ ds = [] := by
  cases ds with
  | nil => simp
  | cons b ds =>
      obtain ⟨d, -, -, kept, -⟩ := exists_foldl_shorter b ds
      simp [shorter, kept]

theorem directiveAt?_eq_foldl (text : Bytes) (offset : Int) :
    (ofText text).directiveAt? offset =
      ((ofText text).directives.filter fun d => d.extent.touches offset).foldl shorter none := by
  have starts : (ofText text).directives.Pairwise fun a b =>
      decide ((b.extent.start : Int) ≤ offset) = true → decide ((a.extent.start : Int) ≤ offset) = true := by
    refine (follows_directives text).imp ?_
    rintro a b ⟨lt, -⟩ before
    simp only [decide_eq_true_eq] at *
    omega
  rw [directiveAt?, takeWhile_eq_filter starts, List.filter_filter]
  congr 2
  funext d
  rw [Extent.touches, Bool.and_comm]

/-- What the recursion knows of the directives that it has passed: they end by `reach`, and what starts before that lies
in one of them. -/
structure Reached (reach : Int) (passed ds : List Directive) : Prop where
  ends : ∀ e ∈ passed, (e.extent.stop : Int) ≤ reach
  covered : ∀ d ∈ ds, (d.extent.start : Int) < reach → ∃ e ∈ passed, e.extent.Contains d.extent

namespace Reached

variable {reach : Int} {passed rest : List Directive} {d : Directive}

/-- A directive that starts too early ends no later than what it lies in. -/
theorem drop (reached : Reached reach passed (d :: rest)) (inside : (d.extent.start : Int) < reach) :
    Reached reach (passed ++ [d]) rest := by
  obtain ⟨e, member, contains⟩ := reached.covered d List.mem_cons_self inside
  refine ⟨fun e' among => ?_, fun d' among before => ?_⟩
  · obtain among | among := List.mem_append.mp among
    · exact reached.ends e' among
    · obtain rfl := List.mem_singleton.mp among
      have stop := reached.ends e member
      have := contains.2
      omega
  · obtain ⟨e', among', contains'⟩ := reached.covered d' (List.mem_cons_of_mem _ among) before
    exact ⟨e', List.mem_append_left _ among', contains'⟩

/-- A directive that starts late enough ends behind all that were passed. -/
theorem keep (reached : Reached reach passed (d :: rest)) (late : reach ≤ d.extent.start)
    (nonempty : d.extent.start < d.extent.stop) (later : ∀ e ∈ rest, Follows d e) :
    Reached d.extent.stop (passed ++ [d]) rest := by
  refine ⟨fun e among => ?_, fun d' among before => ?_⟩
  · obtain among | among := List.mem_append.mp among
    · have := reached.ends e among
      omega
    · obtain rfl := List.mem_singleton.mp among
      exact Int.le_refl _
  · obtain ⟨behind, -, apart | contained⟩ := later d' among
    · omega
    · exact ⟨d, by simp, Nat.le_of_lt behind, contained⟩

end Reached

/-- Directives are taken up behind those that were passed. What starts before `reach` is dropped, and what starts behind
it lies in no other. -/
theorem outermostFrom_eq_filter (passed : List Directive) {ds : List Directive} {reach : Int}
    (follows : (passed ++ ds).Pairwise Follows) (nonempty : ∀ d ∈ ds, d.extent.start < d.extent.stop)
    (reached : Reached reach passed ds) :
    outermostFrom reach ds =
      ds.filter fun d => ∀ e ∈ passed ++ ds, e ≠ d → ¬ e.extent.Contains d.extent := by
  induction ds generalizing passed reach with
  | nil => rfl
  | cons d rest ih =>
      have regroup : passed ++ d :: rest = (passed ++ [d]) ++ rest := by simp
      obtain ⟨-, among, across⟩ := List.pairwise_append.mp follows
      have later : ∀ e ∈ rest, Follows d e := (List.pairwise_cons.mp among).1
      have tail : ∀ e ∈ rest, e.extent.start < e.extent.stop := fun e member =>
        nonempty e (List.mem_cons_of_mem _ member)
      rw [outermostFrom]
      split
      · rename_i inside
        obtain ⟨e, member, contains⟩ := reached.covered d List.mem_cons_self inside
        have dropped : ¬ ∀ e ∈ passed ++ d :: rest, e ≠ d → ¬ e.extent.Contains d.extent := by
          intro none
          refine none e (List.mem_append_left _ member) ?_ contains
          rintro rfl
          exact Nat.lt_irrefl _ (across e member e List.mem_cons_self).1
        rw [List.filter_cons_of_neg (by simpa using dropped), regroup]
        exact ih (passed ++ [d]) (regroup ▸ follows) tail (reached.drop inside)
      · rename_i outside
        have late := Int.not_lt.mp outside
        -- All that was passed has ended, and what comes later starts too late to contain it.
        have kept : ∀ e ∈ passed ++ d :: rest, e ≠ d → ¬ e.extent.Contains d.extent := by
          rintro e member other ⟨start, stop⟩
          have lt := nonempty d List.mem_cons_self
          obtain member | _ | ⟨_, member⟩ := List.mem_append.mp member
          · have := reached.ends e member
            omega
          · exact other rfl
          · have := (later e member).1
            omega
        rw [List.filter_cons_of_pos (by simpa using kept), regroup]
        refine congrArg (d :: ·) (ih (passed ++ [d]) (regroup ▸ follows) tail ?_)
        exact reached.keep late (nonempty d List.mem_cons_self) later

theorem outermost_directives (text : Bytes) :
    outermost (ofText text).directives =
      (ofText text).directives.filter fun d =>
        ∀ e ∈ (ofText text).directives, e ≠ d → ¬ e.extent.Contains d.extent := by
  refine outermostFrom_eq_filter [] (follows_directives text) (fun d member => ?_) ⟨by simp, fun d member before => ?_⟩
  · obtain ⟨n, node, rfl⟩ := List.mem_map.mp member
    exact ((nested_bodyNodes (body_le text)).bounds n (List.mem_of_mem_filter node)).2.1
  · omega

/-- What is found at an offset is what a search through the whole list finds. A link is the first one that the
offset touches, and a directive the first of the shortest it touches. A tool call, an attachment and a turn are
the only ones that hold it, where the last turn holds the end of the text too. Nothing is found just when
nothing is there. The outermost directives are those that lie in no other, in their order. -/
theorem queries_agree_with_search (text : Bytes) (offset : Int) :
    let o := ofText text
    let touching := o.directives.filter fun d => d.extent.touches offset
    o.linkAt? offset = o.links.find? (fun l => l.extent.touches offset) ∧
    o.directiveAt? offset =
      touching.find? (fun d => touching.all fun e => d.extent.length ≤ e.extent.length) ∧
    (o.directiveAt? offset = none ↔ touching = []) ∧
    o.toolCalls.filter (fun e => e.holds offset) = (o.toolCallAt? offset).toList ∧
    o.attachments.filter (fun e => e.holds offset) = (o.attachmentAt? offset).toList ∧
    o.turns.filter (owns o.turns offset) = (o.turnAt? offset).toList ∧
    outermost o.directives = o.directives.filter (fun d =>
      ∀ e ∈ o.directives, e ≠ d → ¬ e.extent.Contains d.extent) := by
  intro o touching
  have tile : Turn.Tile text.length o.body o.turns :=
    tile_turnsFrom ((nested_bodyNodes (body_le text)).row rfl)
  have reaches : ∀ m n : Nat, m ≤ n → decide (offset ≤ (m : Int)) = true → decide (offset ≤ (n : Int)) = true := by
    intro m n le
    simp only [decide_eq_true_eq]
    omega
  refine ⟨Extent.filter_firstPassing? Link.extent (precedes_links text) offset _ reaches, ?_, ?_,
    filter_holds_eq_toList (precedes_closedBlocks text _) offset,
    filter_holds_eq_toList (precedes_closedBlocks text _) offset, ?_, outermost_directives text⟩
  · rw [directiveAt?_eq_foldl, foldl_shorter_eq_find?]
  · rw [directiveAt?_eq_foldl, foldl_shorter_eq_none_iff]
  · rw [turnAt?_eq_find? tile, filter_eq_toList_find? (pairwise_not_owns tile offset)]

end Outline

end Colloquy
