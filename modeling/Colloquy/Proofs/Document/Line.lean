import Colloquy.Document.Basic
import Colloquy.Proofs.Text.Boundary
import Colloquy.Proofs.Text.Bytes
import Mathlib.Tactic.SplitIfs

/-! # The lines of a stretch of text

The lines of a text lie one behind the other from its start to its end, and each takes at least one byte.
-/

namespace Colloquy

/-- Whether a text consists of whole lines: it is empty or ends with a line feed. -/
def Bytes.IsLines (t : Bytes) : Prop := ∀ b ∈ t.getLast?, b = lf

instance (t : Bytes) : Decidable t.IsLines := inferInstanceAs (Decidable (∀ b ∈ t.getLast?, b = Bytes.lf))

theorem Bytes.isLines_nil : IsLines [] := nofun

theorem Bytes.IsLines.drop {t : Bytes} (whole : t.IsLines) (k : Nat) : Bytes.IsLines (t.drop k) := by
  intro b last
  refine whole b ?_
  rw [Option.mem_def, List.getLast?_drop] at last
  split at last
  · cases last
  · exact last

namespace Document

namespace Line

theorem start_le_stop (l : Line) : l.start ≤ l.stop := Nat.le_add_right _ _

/-- The lines that fill the stretch from `start` to `stop`. -/
inductive Fill (stop : Nat) : (start : Nat) → List Line → Prop where
  | nil : Fill stop stop []
  | cons {l : Line} {ls : List Line} : l.stop ≤ l.next → l.start < l.next → Fill stop l.next ls →
      Fill stop l.start (l :: ls)

theorem Fill.le {start stop : Nat} {ls : List Line} (fill : Fill stop start ls) : start ≤ stop := by
  induction fill with
  | nil => exact Nat.le_refl _
  | cons _ lt _ ih => omega

theorem Fill.eq_of_nil {start stop : Nat} (fill : Fill stop start []) : start = stop := by
  cases fill
  rfl

theorem Fill.bounds {start stop : Nat} {ls : List Line} (fill : Fill stop start ls) :
    ∀ l ∈ ls, l.next ≤ stop := by
  induction fill with
  | nil => simp
  | cons _ _ behind ih =>
      intro l member
      obtain _ | ⟨_, member⟩ := member
      · exact behind.le
      · exact ih l member

theorem Fill.tail {start stop : Nat} {l : Line} {ls : List Line} (fill : Fill stop start (l :: ls)) :
    Fill stop l.next ls := by
  cases fill with
  | cons _ _ behind => exact behind

theorem Fill.starts {start stop : Nat} {ls : List Line} (fill : Fill stop start ls) :
    ∀ l ∈ ls, start ≤ l.start ∧ l.start < l.next := by
  induction fill with
  | nil => simp
  | cons _ lt _ ih =>
      intro l member
      obtain _ | ⟨_, member⟩ := member
      · exact ⟨Nat.le_refl _, lt⟩
      · have := ih l member
        omega

theorem Fill.append {stop start : Nat} {ls ls' : List Line} (fill : Fill stop start (ls ++ ls')) :
    ∃ mid, Fill mid start ls ∧ Fill stop mid ls' := by
  induction ls generalizing start with
  | nil => exact ⟨start, .nil, fill⟩
  | cons l ls ih =>
      cases fill with
      | cons content lt behind =>
          obtain ⟨mid, front, rest⟩ := ih behind
          exact ⟨mid, .cons content lt front, rest⟩

theorem dropReturn_eq_self {t : Bytes} (free : Bytes.cr ∉ t) : dropReturn t = t := by
  rw [dropReturn, if_neg fun last => free (List.mem_of_getLast? (eq_of_beq last))]

theorem dropReturn_append (t : Bytes) {u : Bytes} (some : u ≠ []) : dropReturn (t ++ u) = t ++ dropReturn u := by
  rw [dropReturn, dropReturn, List.getLast?_append_of_ne_nil _ some]
  split
  · exact List.dropLast_append_of_ne_nil some
  · rfl

theorem dropReturn_append_of_free {t : Bytes} (free : Bytes.cr ∉ t) (u : Bytes) :
    dropReturn (t ++ u) = t ++ dropReturn u := by
  by_cases none : u = []
  · subst none
    rw [List.append_nil, dropReturn_eq_self free]
    exact (List.append_nil t).symm
  · exact dropReturn_append t none

theorem front_dropReturn (t : Bytes) : dropReturn t <+: t := by
  unfold dropReturn
  split
  · exact List.dropLast_prefix t
  · exact List.prefix_rfl

theorem length_dropReturn_le (t : Bytes) : (dropReturn t).length ≤ t.length := (front_dropReturn t).length_le

theorem fill_layOut (start : Nat) (pieces : List Bytes) :
    Fill (start + (Bytes.join [Bytes.lf] pieces).length) start (layOut start pieces) := by
  fun_induction layOut start pieces with
  | case1 start => exact .nil
  | case2 start last empty =>
      obtain rfl : last = [] := by simpa using empty
      exact .nil
  | case3 start last some =>
      have pos : 0 < last.length := by simpa [List.length_pos_iff] using some
      have content := length_dropReturn_le last
      exact .cons (l := ⟨start, dropReturn last, start + last.length⟩) (Nat.add_le_add_left content start)
        (Nat.lt_add_of_pos_right pos) .nil
  | case4 start piece pieces more ih =>
      have content := length_dropReturn_le piece
      have joined : start + (Bytes.join [Bytes.lf] (piece :: pieces)).length =
          start + piece.length + 1 + (Bytes.join [Bytes.lf] pieces).length := by
        rw [Bytes.join_cons _ _ more]
        simp only [List.length_append, List.length_singleton]
        omega
      rw [joined]
      refine .cons (l := ⟨start, dropReturn piece, start + piece.length + 1⟩) ?_ ?_ ih
      · simp only [stop]
        omega
      · simp only
        omega

theorem fill_ofText (start : Nat) (t : Bytes) : Fill (start + t.length) start (ofText start t) := by
  have fill := fill_layOut start (t.splitOn Bytes.lf)
  rw [Bytes.join_splitOn] at fill
  exact fill

/-- The lines of a body fill the text behind the header. -/
theorem fill_body {text : Bytes} {body : Nat} (le : body ≤ text.length) :
    Fill text.length body (ofText body (text.drop body)) := by
  have fill := fill_ofText body (text.drop body)
  rw [List.length_drop, Nat.add_sub_of_le le] at fill
  exact fill

theorem ofText_last {t : Bytes} (free : Bytes.lf ∉ t) (start : Nat) :
    ofText start t = if t.isEmpty then [] else [⟨start, dropReturn t, start + t.length⟩] := by
  obtain ⟨last, rest, split, whole⟩ := Bytes.splitOn_append free []
  obtain ⟨rfl, rfl⟩ := List.cons.inj split
  rw [List.append_nil] at whole
  rw [ofText, whole, layOut]

theorem ofText_line {line : Bytes} (free : Bytes.lf ∉ line) (start : Nat) (rest : Bytes) :
    ofText start (line ++ Bytes.lf :: rest) =
      ⟨start, dropReturn line, start + line.length + 1⟩ :: ofText (start + line.length + 1) rest := by
  obtain ⟨last, pieces, split, whole⟩ := Bytes.splitOn_append free (Bytes.lf :: rest)
  rw [Bytes.splitOn, if_pos (beq_self_eq_true _)] at split
  obtain ⟨rfl, rfl⟩ := List.cons.inj split
  rw [List.append_nil] at whole
  rw [ofText, whole, layOut.eq_3 _ _ _ (Bytes.splitOn_ne_nil rest _), ofText]

/-- A line that a line feed ends is a part of the text without the last line feed. -/
theorem content_infix (start : Nat) (t : Bytes) : ∀ l ∈ ofText start (t ++ [Bytes.lf]), l.content <:+: t := by
  induction t using Bytes.lineInduction generalizing start with
  | last t free =>
      intro l member
      rw [ofText_line free] at member
      obtain rfl := List.mem_singleton.mp member
      exact (front_dropReturn t).isInfix
  | more line rest free ih =>
      intro l member
      rw [List.append_assoc, List.cons_append, ofText_line free] at member
      obtain rfl | later := List.mem_cons.mp member
      · exact (front_dropReturn line).isInfix.trans (List.prefix_append _ _).isInfix
      · exact (ih _ l later).trans ((List.suffix_cons _ _).trans (List.suffix_append _ _)).isInfix

/-- The lines behind whole lines are those of what stands there. -/
theorem ofText_append {t : Bytes} (whole : t.IsLines) (start : Nat) (u : Bytes) :
    ofText start (t ++ u) = ofText start t ++ ofText (start + t.length) u := by
  induction t using Bytes.lineInduction generalizing start with
  | last t free =>
      obtain rfl : t = [] := by
        refine List.getLast?_eq_none_iff.mp (Option.eq_none_iff_forall_not_mem.mpr fun b last => free ?_)
        exact whole b last ▸ List.mem_of_getLast? last
      rfl
  | more line rest free ih =>
      have behind : rest.IsLines := by
        intro b last
        refine whole b ?_
        rw [Option.mem_def] at last ⊢
        rw [List.getLast?_append, List.getLast?_cons, last]
        rfl
      have lengths : start + (line ++ Bytes.lf :: rest).length = start + line.length + 1 + rest.length := by
        rw [List.length_append, List.length_cons]
        omega
      rw [List.append_assoc, List.cons_append, ofText_line free, ih behind, ofText_line free, lengths, List.cons_append]

end Line

theorem Header.stop_le {t : Bytes} {h : Header} (found : Header.ofText? t = some h) : h.stop ≤ t.length := by
  unfold Header.ofText? at found
  have fill := Line.fill_ofText 0 t
  rw [Nat.zero_add] at fill
  split at found
  · simp at found
  · rename_i opening rest lines
    rw [lines] at fill
    split_ifs at found
    split at found
    · rename_i l closing
      cases found
      exact fill.bounds l (List.mem_cons_of_mem _ (List.mem_of_find?_eq_some closing))
    · cases found
      exact Nat.le_refl _

theorem Header.content_bounds {t : Bytes} {h : Header} (found : Header.ofText? t = some h) :
    h.content.start ≤ h.content.stop ∧ h.content.stop ≤ t.length := by
  unfold Header.ofText? at found
  have fill := Line.fill_ofText 0 t
  rw [Nat.zero_add] at fill
  split at found
  · simp at found
  · rename_i opening rest lines
    rw [lines] at fill
    have behind := fill.tail
    split_ifs at found
    split at found
    · rename_i l closing
      cases found
      have member := List.mem_of_find?_eq_some closing
      have starts := behind.starts l member
      have stops := behind.bounds l member
      exact ⟨starts.1, by simp only; omega⟩
    · cases found
      exact ⟨behind.le, Nat.le_refl _⟩

end Document

end Colloquy
