import Colloquy.Outline.Query
import Colloquy.Proofs.Document.Block
import Colloquy.Proofs.Search
import Mathlib.Data.List.Chain

/-! # Turns partition the body

A container that starts before the end of the turn in front of it makes no turn, so whether every top-level
container is one depends on the scan. `Row` says what the scan guarantees: the top-level containers stand one
behind the other. It follows from the nesting of nodes, since what a container holds is deeper. Along a row the
turns tile the body.
-/

namespace Colloquy

namespace Document

deriving instance ReflBEq, LawfulBEq for Kind

/-- A container that no other container holds. -/
def Node.IsTop (n : Node) : Prop := n.kind = .container ∧ n.depth = 0

instance (n : Node) : Decidable n.IsTop := inferInstanceAs (Decidable (_ ∧ _))

/-- The top-level containers among the nodes lie one behind the other between `cursor` and `stop`. -/
inductive Row (stop : Nat) : (cursor : Nat) → List Node → Prop where
  | nil {cursor : Nat} : cursor ≤ stop → Row stop cursor []
  | skip {cursor : Nat} {n : Node} {ns : List Node} : ¬ n.IsTop → Row stop cursor ns → Row stop cursor (n :: ns)
  | top {cursor : Nat} {n : Node} {ns : List Node} : n.IsTop → cursor ≤ n.start → n.start < n.stop →
      Row stop n.stop ns → Row stop cursor (n :: ns)

namespace Row

variable {cursor mid stop : Nat} {ns ms : List Node}

theorem lower {cursor' : Nat} (row : Row stop cursor ns) (le : cursor' ≤ cursor) : Row stop cursor' ns := by
  induction row with
  | nil inside => exact .nil (Nat.le_trans le inside)
  | skip plain _ ih => exact .skip plain (ih le)
  | top isTop start lt rest _ => exact .top isTop (Nat.le_trans le start) lt rest

theorem append (row : Row mid cursor ns) (behind : Row stop mid ms) : Row stop cursor (ns ++ ms) := by
  induction row with
  | nil le => exact behind.lower le
  | skip plain _ ih => exact .skip plain ih
  | top isTop start lt _ ih => exact .top isTop start lt ih

theorem skipAll (plain : ∀ n ∈ ns, ¬ n.IsTop) (behind : Row stop cursor ms) : Row stop cursor (ns ++ ms) := by
  induction ns with
  | nil => exact behind
  | cons n ns ih =>
      refine .skip (plain n List.mem_cons_self) (ih ?_)
      intro m member
      exact plain m (List.mem_cons_of_mem _ member)

end Row

theorem Nested.not_isTop {lo hi depth : Nat} {ns : List Node} (nested : Nested lo hi (depth + 1) ns) :
    ∀ n ∈ ns, ¬ n.IsTop := by
  rintro n member ⟨container, flat⟩
  have deep := nested.depth_eq member
  rw [if_pos container, flat] at deep
  omega

theorem Nested.row {lo hi depth : Nat} {ns : List Node} (nested : Nested lo hi depth ns) (flat : depth = 0) :
    Row hi lo ns := by
  induction nested with
  | nil le => exact .nil le
  | @cons lo hi depth n inner rest start given holds nestedInner nestedRest ihInner ihRest =>
      subst flat
      have lt := nestedInner.le
      have behind := ihRest rfl
      by_cases container : n.kind = .container
      · rw [if_pos container] at given
        rw [Kind.depthInside, if_pos container] at nestedInner
        exact .top ⟨container, given⟩ start lt (behind.skipAll nestedInner.not_isTop)
      · -- Containers inside a directive would still be at the top.
        have inside := ihInner (if_neg container)
        exact .skip (fun isTop => container isTop.1) ((inside.append behind).lower (by omega))

end Document

namespace Turn

/-- The turns fill the stretch from `start` to `stop` one behind the other, and none of them is empty. -/
inductive Tile (stop : Nat) : (start : Nat) → List Turn → Prop where
  | nil : Tile stop stop []
  | cons {t : Turn} {ts : List Turn} : t.extent.start < t.extent.stop → Tile stop t.extent.stop ts →
      Tile stop t.extent.start (t :: ts)

namespace Tile

variable {start stop : Nat} {ts : List Turn}

theorem le (tile : Tile stop start ts) : start ≤ stop := by
  induction tile with
  | nil => exact Nat.le_refl _
  | cons lt _ ih => omega

theorem eq_nil_iff (tile : Tile stop start ts) : ts = [] ↔ start = stop := by
  cases tile with
  | nil => simp
  | cons lt rest =>
      have := rest.le
      simp only [reduceCtorEq, false_iff]
      omega

theorem bounds (tile : Tile stop start ts) : ∀ t ∈ ts, start ≤ t.extent.start ∧ t.extent.start < t.extent.stop := by
  induction tile with
  | nil => simp
  | cons lt rest ih =>
      intro t member
      obtain _ | ⟨_, member⟩ := member
      · exact ⟨Nat.le_refl _, lt⟩
      · have := ih t member
        omega

theorem pairwise_stop (tile : Tile stop start ts) : ts.Pairwise fun a b => a.extent.stop ≤ b.extent.stop := by
  induction tile with
  | nil => exact .nil
  | cons lt rest ih =>
      refine List.pairwise_cons.mpr ⟨?_, ih⟩
      intro t member
      have := rest.bounds t member
      omega

/-- The first turn that ends behind an offset is the only one that holds it. -/
theorem exists_holding (tile : Tile stop start ts) {offset : Int} (left : start ≤ offset) (right : offset < stop) :
    ∃ t, ts.find? (fun t => offset < (t.extent.stop : Int)) = some t ∧
      (t.extent.start : Int) ≤ offset ∧
      ts.filter (fun t => (t.extent.start : Int) ≤ offset ∧ offset < t.extent.stop) = [t] := by
  induction tile with
  | nil => omega
  | @cons t ts lt rest ih =>
      by_cases here : offset < t.extent.stop
      · refine ⟨t, by simp [here], left, ?_⟩
        have others : ∀ u ∈ ts, ¬ ((u.extent.start : Int) ≤ offset ∧ offset < u.extent.stop) := by
          intro u member
          have := rest.bounds u member
          omega
        rw [List.filter_cons_of_pos (by simp [left, here]), List.filter_eq_nil_iff.mpr (by simpa using others)]
      · obtain ⟨u, found, before, only⟩ := ih (by omega)
        refine ⟨u, ?_, before, ?_⟩
        · rw [List.find?_cons_of_neg (by simpa using here), found]
        · rw [List.filter_cons_of_neg (by simp [here]), only]

end Tile

end Turn

namespace Outline

open Document

variable {stop cursor : Nat} {n : Node} {ns : List Node}

theorem turnsFrom_skip (plain : ¬ n.IsTop) : turnsFrom stop cursor (n :: ns) = turnsFrom stop cursor ns := by
  have passed : (n.kind != .container || n.depth != 0 || n.start < cursor) = true := by
    rw [Node.IsTop, Classical.not_and_iff_not_or_not] at plain
    obtain other | deep := plain
    · simp [other]
    · simp [deep]
  rw [turnsFrom, if_pos passed]

theorem turnsFrom_top (isTop : n.IsTop) (start : cursor ≤ n.start) :
    turnsFrom stop cursor (n :: ns) =
      (if cursor < n.start then [⟨.user, ⟨cursor, n.start⟩, []⟩] else []) ++
        ⟨.assistant, n.extent, n.name⟩ :: turnsFrom stop n.stop ns := by
  have taken : ¬ (n.kind != .container || n.depth != 0 || n.start < cursor) = true := by
    simp [isTop.1, isTop.2, start]
  rw [turnsFrom, if_neg taken]

theorem tile_turnsFrom (row : Row stop cursor ns) : Turn.Tile stop cursor (turnsFrom stop cursor ns) := by
  induction row with
  | @nil cursor le =>
      rw [turnsFrom]
      split
      · rename_i lt
        exact .cons (t := ⟨.user, ⟨cursor, stop⟩, []⟩) lt .nil
      · obtain rfl : cursor = stop := by omega
        exact .nil
  | skip plain _ ih =>
      rw [turnsFrom_skip plain]
      exact ih
  | @top cursor n ns isTop start lt _ ih =>
      have assistant : Turn.Tile stop n.start (⟨.assistant, n.extent, n.name⟩ :: turnsFrom stop n.stop ns) :=
        .cons (t := ⟨.assistant, n.extent, n.name⟩) lt ih
      rw [turnsFrom_top isTop start]
      split
      · rename_i gap
        exact .cons (t := ⟨.user, ⟨cursor, n.start⟩, []⟩) gap assistant
      · obtain rfl : cursor = n.start := by omega
        exact assistant

theorem assistants_turnsFrom (row : Row stop cursor ns) :
    (turnsFrom stop cursor ns).filter (fun t => t.speaker = .assistant) =
      (ns.filter fun n => n.IsTop).map fun n => ⟨.assistant, n.extent, n.name⟩ := by
  induction row with
  | nil le =>
      rw [turnsFrom]
      split <;> rfl
  | skip plain _ ih => rw [turnsFrom_skip plain, ih, List.filter_cons_of_neg (by simpa using plain)]
  | top isTop start _ _ ih =>
      rw [turnsFrom_top isTop start, List.filter_append, List.filter_cons_of_pos (by simp), ih,
        List.filter_cons_of_pos (by simpa using isTop), List.map_cons]
      split <;> rfl

theorem alternate_turnsFrom (row : Row stop cursor ns) :
    (turnsFrom stop cursor ns).IsChain fun a b => a.speaker = .assistant ∨ b.speaker = .assistant := by
  induction row with
  | nil le =>
      rw [turnsFrom]
      split
      · exact .singleton _
      · exact .nil
  | skip plain _ ih =>
      rw [turnsFrom_skip plain]
      exact ih
  | @top cursor n ns isTop start _ _ ih =>
      have assistant := ih.cons (x := ⟨.assistant, n.extent, n.name⟩) fun _ _ => .inl rfl
      rw [turnsFrom_top isTop start]
      split
      · exact assistant.cons fun next first => by
          cases first
          exact .inr rfl
      · exact assistant

theorem turnAt?_eq_of_holding {o : Outline} {start : Nat} (tile : Turn.Tile stop start o.turns) {offset : Int}
    {t : Turn} (found : o.turns.find? (fun t => offset < (t.extent.stop : Int)) = some t)
    (before : (t.extent.start : Int) ≤ offset) : o.turnAt? offset = some t := by
  have mono : o.turns.Pairwise fun a b =>
      decide (offset < (a.extent.stop : Int)) = true → decide (offset < (b.extent.stop : Int)) = true := by
    refine tile.pairwise_stop.imp ?_
    intro a b le passed
    simp only [decide_eq_true_eq] at passed ⊢
    omega
  rw [turnAt?, firstPassing?_eq_find? mono, found, Option.filter_some_pos (by simpa using before)]

/-- The turns of every text tile its body, so there are none just when there is no body. The assistants' turns
are the top-level containers, all of them, and of two neighbours one is an assistant's. An offset in the body
lies in one turn only, and that is the turn found there. -/
theorem turns_partition_body (text : Bytes) :
    let d := Document.ofText text
    let o := Outline.ofDocument d
    Turn.Tile text.length o.body o.turns ∧
    (o.turns = [] ↔ o.body = text.length) ∧
    o.turns.filter (fun t => t.speaker = .assistant) =
      (d.nodes.filter fun n => n.kind = .container ∧ n.depth = 0).map (fun n =>
        ⟨.assistant, n.extent, n.name⟩) ∧
    o.turns.IsChain (fun a b => a.speaker = .assistant ∨ b.speaker = .assistant) ∧
    ∀ offset : Int, o.body ≤ offset → offset < text.length →
      ∃ t, o.turns.filter (fun t => (t.extent.start : Int) ≤ offset ∧ offset < t.extent.stop) = [t] ∧
        o.turnAt? offset = some t := by
  intro d o
  have row : Row text.length d.body d.nodes := (nested_bodyNodes (body_le text)).row rfl
  have tile : Turn.Tile text.length o.body o.turns := tile_turnsFrom row
  refine ⟨tile, tile.eq_nil_iff, assistants_turnsFrom row, alternate_turnsFrom row, ?_⟩
  intro offset left right
  obtain ⟨t, found, before, only⟩ := tile.exists_holding left right
  exact ⟨t, only, turnAt?_eq_of_holding tile found before⟩

end Outline

end Colloquy
