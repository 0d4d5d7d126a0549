import Colloquy.Preview.Fence
import Colloquy.Proofs.Document.Fence

/-! # Code does not end its own fence

A fence is made without regard to lines: it is longer than every run of backticks in the text. The scan looks for a
line that closes the fence, and the backticks such a line starts with are a run of the text. So no line of the text
closes the fence, and the next line that does is the one behind the text.
-/

namespace Colloquy

namespace Fence

/-! ## Runs of backticks -/

variable {t : Bytes} {n : Nat}

theorem le_longestFrom (run : Nat) (t : Bytes) : run ≤ longestFrom run t := by
  induction t generalizing run with
  | nil => exact Nat.le_refl _
  | cons b t ih =>
      rw [longestFrom]
      split
      · have := ih (run + 1)
        omega
      · exact Nat.le_max_left _ _

theorem add_le_longestFrom (run : Nat) (starts : List.replicate n tick <+: t) : run + n ≤ longestFrom run t := by
  induction t generalizing run n with
  | nil =>
      obtain rfl : n = 0 := by simpa using starts
      exact Nat.le_refl _
  | cons b t ih =>
      cases n with
      | zero => exact le_longestFrom run _
      | succ n =>
          rw [List.replicate_succ, List.cons_prefix_cons] at starts
          obtain ⟨rfl, behind⟩ := starts
          have further := ih (run + 1) behind
          rw [longestFrom, if_pos (beq_self_eq_true _)]
          omega

/-- No run of backticks is longer than the longest one. -/
theorem le_longest (inside : List.replicate n tick <:+: t) : n ≤ longest t := by
  have bounded : ∀ run, n ≤ longestFrom run t := by
    induction t with
    | nil =>
        intro run
        obtain rfl : n = 0 := by simpa using inside
        exact Nat.zero_le _
    | cons b t ih =>
        intro run
        obtain starts | later := List.infix_cons_iff.mp inside
        · have := add_le_longestFrom run starts
          omega
        · rw [longestFrom]
          split
          · exact ih later _
          · exact Nat.le_trans (ih later 0) (Nat.le_max_right _ _)
  exact bounded 0

theorem longest_lt_length (t : Bytes) : longest t < length t := by
  unfold length
  split <;> omega

theorem three_le_length (t : Bytes) : 3 ≤ length t := by
  unfold length
  split <;> omega

end Fence

theorem Bytes.slice_between (t u v : Bytes) : (t ++ u ++ v).slice t.length (t.length + u.length) = u := by
  rw [slice, List.append_assoc, List.drop_left, Nat.add_sub_cancel_left, List.take_left]

namespace Document

open Fence

namespace Block

/-! ## Lines of a fence -/

/-- A line that is a part of a text does not close the fence of the text. -/
theorem closesFence_eq_false {line t : Bytes} (part : line <:+: t) : closesFence tick (length t) line = false := by
  let rest := line.drop (line.takeWhile (· == Bytes.space)).length
  have run : rest.takeWhile (· == tick) = List.replicate (rest.takeWhile (· == tick)).length tick :=
    List.eq_replicate_iff.mpr ⟨rfl, fun b member => by simpa using List.mem_takeWhile_imp member⟩
  have inside : rest.takeWhile (· == tick) <:+: t :=
    (List.takeWhile_prefix _).isInfix.trans ((List.drop_suffix _ _).isInfix.trans part)
  have short : (rest.takeWhile (· == tick)).length ≤ longest t := le_longest (run ▸ inside)
  simp only [closesFence, Bool.and_eq_false_iff, decide_eq_false_iff_not]
  exact .inl (.inr (Nat.not_le.mpr (Nat.lt_of_le_of_lt short (longest_lt_length t))))

section

variable {n : Nat} {info : Bytes}

theorem takeWhile_ticks (n : Nat) (free : tick ∉ info) :
    (List.replicate n tick ++ info).takeWhile (· == tick) = List.replicate n tick := by
  refine Inline.takeWhile_run (fun b member => beq_iff_eq.mpr (List.eq_of_mem_replicate member)) fun b first => ?_
  exact beq_eq_false_iff_ne.mpr fun same => free (same ▸ List.mem_of_mem_head? first)

theorem takeWhile_spaces (info : Bytes) (pos : 0 < n) :
    (List.replicate n tick ++ info).takeWhile (· == Bytes.space) = [] := by
  obtain ⟨k, rfl⟩ := Nat.exists_eq_succ_of_ne_zero (Nat.ne_of_gt pos)
  rfl

theorem openingFence?_ticks (long : 3 ≤ n) (free : tick ∉ info) :
    openingFence? (List.replicate n tick ++ info) = some (tick, n) := by
  have run := congrArg List.length (takeWhile_ticks n free)
  have behind : (List.replicate n tick ++ info).drop n = info := List.drop_left' List.length_replicate
  obtain ⟨k, rfl⟩ : ∃ k, n = k + 1 := ⟨n - 1, by omega⟩
  rw [List.length_replicate] at run
  rw [List.replicate_succ, List.cons_append] at run behind ⊢
  have marked : (tick == 0x60) = true := rfl
  have enough : decide (k + 1 < 3) = false := decide_eq_false (by omega)
  have none : List.contains info 0x60 = false := by
    rw [List.contains_eq_mem]
    exact decide_eq_false free
  simp only [openingFence?, run, behind, marked, enough, none, Bool.true_or, if_true, Bool.and_false, Bool.or_false,
    Bool.false_eq_true, if_false]

/-- A line of backticks, with none behind them, opens a fence. -/
theorem step_opening (text : Bytes) {start next : Nat} (long : 3 ≤ n) (free : tick ∉ info) :
    step text .start ⟨start, List.replicate n tick ++ info, next⟩ = (⟨.fenced tick n start, []⟩, []) := by
  have spaces := takeWhile_spaces info (by omega : 0 < n)
  have opened := openingFence?_ticks long free
  have column : Line.indent (List.replicate n tick ++ info) = 0 := by
    obtain ⟨k, rfl⟩ : ∃ k, n = k + 1 := ⟨n - 1, by omega⟩
    rfl
  have filled : Bytes.isBlank (List.replicate n tick ++ info) = false := by
    obtain ⟨k, rfl⟩ : ∃ k, n = k + 1 := ⟨n - 1, by omega⟩
    exact Bytes.isBlank_cons (by decide) (by decide) _
  simp [step, State.start, openLine, filled, column, spaces, opened, flush]

theorem closesFence_ticks (pos : 0 < n) : closesFence tick n (List.replicate n tick) = true := by
  have spaces := takeWhile_spaces [] pos
  have run := takeWhile_ticks n (List.not_mem_nil : tick ∉ [])
  rw [List.append_nil] at spaces run
  simp only [closesFence, spaces, List.length_nil, List.drop_zero, run, List.length_replicate]
  simp [show Bytes.isBlank [] = true from rfl]

end

/-- From an open fence the scan goes to the line that closes it. -/
theorem run_closed (text : Bytes) {mark : UInt8} {length start : Nat} {ls : List Line} {l : Line}
    (opened : ∀ l ∈ ls, closesFence mark length l.content = false) (closed : closesFence mark length l.content = true) :
    run text ⟨.fenced mark length start, []⟩ (ls ++ [l]) = [⟨.fencedCode, [], start, l.next, 0⟩] := by
  obtain ⟨still, none⟩ := after_fenced text [] start opened
  have last : step text ⟨.fenced mark length start, []⟩ l =
      (⟨.idle, []⟩, [⟨.fencedCode, [], start, l.next, 0⟩]) := by
    simp only [step, closed, if_true]
  rw [run_append, still, none, run, last]
  rfl

end Block

/-! ## The fenced text -/

/-- The lines of a fenced text: the fence with the language, the lines of the text, and the fence. -/
theorem lines_wrap (t : Bytes) {language : Bytes} (oneLine : Bytes.lf ∉ language) :
    let fence := List.replicate (length t) tick
    let code := Bytes.trimEndWhile t (· == Bytes.lf) ++ [Bytes.lf]
    let first := (fence ++ language).length + 1
    Line.ofText 0 (wrap t language) =
      ⟨0, fence ++ Line.dropReturn language, first⟩ ::
        (Line.ofText first code ++ [⟨first + code.length, fence, (wrap t language).length⟩]) := by
  intro fence code first
  have plain : ∀ b ∈ fence, b = tick := fun b member => List.eq_of_mem_replicate member
  have noBreak : Bytes.lf ∉ fence ++ language := by
    intro member
    obtain member | member := List.mem_append.mp member
    · exact absurd (plain _ member) (by decide)
    · exact oneLine member
  have noReturn : Bytes.cr ∉ fence := fun member => absurd (plain _ member) (by decide)
  have whole : code.IsLines := by simp [Bytes.IsLines, code]
  have out : wrap t language = (fence ++ language) ++ Bytes.lf :: (code ++ fence) := by
    simp [wrap, fence, code]
  have some : fence ≠ [] := by
    have := three_le_length t
    simp only [fence, ne_eq, List.replicate_eq_nil_iff]
    omega
  have length : (wrap t language).length = first + code.length + fence.length := by
    rw [out]
    simp only [List.length_append, List.length_cons, first]
    omega
  rw [length, out, Line.ofText_line noBreak, Line.dropReturn_append_of_free noReturn, Line.ofText_append whole,
    Line.ofText_last (fun member => noBreak (List.mem_append_left _ member)), Line.dropReturn_eq_self noReturn]
  simp [some, first]

/-- A text in a fence is one node of code. Between the line of the first fence and the line feed in front of the last
    one stands the text without the line feeds at its end. -/
theorem wrapped_in_one_fence (t : Bytes) {language : Bytes} (noTick : tick ∉ language) (oneLine : Bytes.lf ∉ language) :
    let out := wrap t language
    (ofText out).header = none ∧
    (ofText out).nodes = [⟨.fencedCode, [], 0, out.length, 0⟩] ∧
    ∃ opening middle closing, Line.ofText 0 out = opening :: middle ++ [closing] ∧
      out.slice opening.next (closing.start - 1) = Bytes.trimEndWhile t (· == Bytes.lf) := by
  intro out
  have long := three_le_length t
  have lines := lines_wrap t oneLine
  have header : Header.ofText? out = none := by
    refine Header.ofText?_eq_none ?_
    obtain ⟨k, length⟩ : ∃ k, length t = k + 1 := ⟨length t - 1, by omega⟩
    simp [out, wrap, length, List.replicate_succ, tick]
  have found : Block.run out .start (Line.ofText 0 out) = [⟨.fencedCode, [], 0, out.length, 0⟩] := by
    have noTick : tick ∉ Line.dropReturn language := fun member => noTick ((Line.front_dropReturn _).subset member)
    rw [lines, Block.run, Block.step_opening out long noTick]
    refine Block.run_closed out (fun l member => ?_) (Block.closesFence_ticks (by omega))
    exact Block.closesFence_eq_false ((Line.content_infix _ _ l member).trans (Bytes.trimEndWhile_prefix t _).isInfix)
  refine ⟨header, ?_, _, _, _, lines, ?_⟩
  · rw [ofText, header, bodyNodes, bodyOf]
    change (Block.run out .start (Line.ofText 0 (out.drop 0))).mergeSort _ = _
    rw [List.drop_zero, found, List.mergeSort_singleton]
  · have between := Bytes.slice_between (List.replicate (length t) tick ++ language ++ [Bytes.lf])
      (Bytes.trimEndWhile t (· == Bytes.lf)) (Bytes.lf :: List.replicate (length t) tick)
    have whole : List.replicate (length t) tick ++ language ++ [Bytes.lf] ++ Bytes.trimEndWhile t (· == Bytes.lf) ++
        Bytes.lf :: List.replicate (length t) tick = out := by
      simp [out, wrap]
    rw [whole, List.length_append, List.length_singleton] at between
    have stop (first : Nat) : first + (Bytes.trimEndWhile t (· == Bytes.lf) ++ [Bytes.lf]).length - 1 =
        first + (Bytes.trimEndWhile t (· == Bytes.lf)).length := by
      rw [List.length_append, List.length_singleton, ← Nat.add_assoc, Nat.add_sub_cancel]
    exact (congrArg (out.slice _) (stop _)).trans between

/-- Fences of both kinds, a container and the line of a header in the text, and line feeds at its end. -/
theorem wrapped_in_one_fence_hostile :
    let t := utf8 "```\n   ````  \n~~~\n:::a\n---\n\n"
    let out := utf8 "`````go\n```\n   ````  \n~~~\n:::a\n---\n`````"
    wrap t (utf8 "go") = out ∧ (ofText out).header = none ∧
    (ofText out).nodes = [⟨.fencedCode, [], 0, out.length, 0⟩] := by
  intro t out
  have wrapped : wrap t (utf8 "go") = out := by decide
  obtain ⟨header, nodes, -⟩ := wrapped_in_one_fence t (by decide : tick ∉ utf8 "go") (by decide)
  rw [wrapped] at header nodes
  exact ⟨wrapped, header, nodes⟩

end Document

end Colloquy
