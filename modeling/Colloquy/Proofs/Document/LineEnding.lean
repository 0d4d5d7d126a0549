import Colloquy.Proofs.Document.Relocation
import Colloquy.Proofs.Document.Stretch
import Colloquy.Proofs.Text.LineEnding
import Mathlib.Data.List.Infix

/-! # Ends of lines and the scan

A document means the same with either end of line. The lines have the same contents, so the header and the blocks are
found where they have moved. The inline scan sees the carriage returns, and each of its functions passes them like the
line feeds behind them, with one exception: a backslash in a destination in angle brackets takes the meaning from the
byte behind it, and so a line feed is let through there, while of a carriage return and a line feed it is not.
-/

namespace Colloquy.Document

open Bytes (crlf reach Tracks lf cr)

theorem Inline.isPlain_lf : Inline.IsPlain lf := .inl (by decide)

theorem Inline.isPlain_cr : Inline.IsPlain cr := .inl (by decide)

namespace Bracket

variable {left right : UInt8} (printedLeft : Inline.IsPrinted left) (printedRight : Inline.IsPrinted right)
include printedLeft printedRight

/-- A byte without meaning is passed, escaped or not. -/
theorem closingFrom_cons_plain {b : UInt8} (plain : Inline.IsPlain b) (escaped : Bool) (depth : Int) (pos : Nat)
    (t : Bytes) :
    closingFrom left right escaped depth pos (b :: t) = closingFrom left right false depth (pos + 1) t := by
  cases escaped with
  | true => rfl
  | false =>
      rw [closingFrom, if_neg (by simpa using plain.ne (by decide)), if_neg (by simpa using plain.ne printedLeft),
        if_neg (by simpa using plain.ne printedRight)]

theorem closingFrom_crlf {g : Nat → Nat} {pos : Nat} {t : Bytes} (tracks : Tracks g pos t) (escaped : Bool)
    (depth : Int) :
    closingFrom left right escaped depth (g pos) (crlf t) = (closingFrom left right escaped depth pos t).map g := by
  induction t generalizing pos escaped depth with
  | nil => rw [Bytes.crlf_nil, closingFrom, closingFrom, Option.map_none]
  | cons b t ih =>
      have behind := ih tracks.tail
      by_cases same : b = lf
      · subst same
        rw [tracks.next_lf] at behind
        rw [Bytes.crlf_lf, closingFrom_cons_plain printedLeft printedRight Inline.isPlain_cr,
          closingFrom_cons_plain printedLeft printedRight Inline.isPlain_lf,
          closingFrom_cons_plain printedLeft printedRight Inline.isPlain_lf, behind]
      · rw [tracks.next same] at behind
        rw [Bytes.crlf_cons same]
        cases escaped with
        | true => exact behind false depth
        | false =>
            simp only [closingFrom, behind]
            split_ifs <;> rfl

theorem closing?_crlf (t : Bytes) : closing? left right (crlf t) = (closing? left right t).map (reach t) :=
  closingFrom_crlf printedLeft printedRight (Bytes.tracks_self t) false 0

omit printedLeft printedRight

theorem square?_crlf (t : Bytes) : square? (crlf t) = (square? t).map (reach t) :=
  closing?_crlf (by decide) (by decide) t

theorem brace?_crlf (t : Bytes) : brace? (crlf t) = (brace? t).map (reach t) :=
  closing?_crlf (by decide) (by decide) t

theorem paren?_crlf (t : Bytes) : paren? (crlf t) = (paren? t).map (reach t) :=
  closing?_crlf (by decide) (by decide) t

end Bracket

namespace Inline

/-! ## Links -/

/-- No destination in angle brackets goes on behind the end of a line. -/
def AnglesOnLine (t : Bytes) : Prop :=
  ∀ front blanks angle close, t = front ++ utf8 "](" ++ blanks ++ 0x3C :: angle → blanks.all Bytes.isBlankByte →
    angleFrom false 0 angle = some close → lf ∉ angle.take close

theorem angleFrom_append_of_some {escaped : Bool} {pos close : Nat} {t : Bytes} (tail : Bytes)
    (found : angleFrom escaped pos t = some close) : angleFrom escaped pos (t ++ tail) = some close := by
  fun_induction angleFrom escaped pos t with
  | case1 | case5 => cases found
  | case2 | case3 | case4 | case6 => simp_all [angleFrom]

theorem AnglesOnLine.of_append {front t behind : Bytes} (angles : AnglesOnLine (front ++ t ++ behind)) :
    AnglesOnLine t := by
  rintro before blanks angle close rfl blank found
  have inside := angles (front ++ before) blanks (angle ++ behind) close (by simp) blank
    (angleFrom_append_of_some behind found)
  have lt := angleFrom_lt found
  rw [List.take_append_of_le_length (by omega)] at inside
  exact inside

/-- Only a backslash lets a line feed into a destination in angle brackets. -/
theorem AnglesOnLine.of_unescaped {t : Bytes} (free : Bracket.backslash ∉ t) : AnglesOnLine t := by
  have inside : ∀ pos close (angle : Bytes), Bracket.backslash ∉ angle → angleFrom false pos angle = some close →
      lf ∉ angle.take (close - pos) := by
    intro pos close angle
    induction angle generalizing pos with
    | nil => exact fun _ found => nomatch found
    | cons b angle ih =>
        intro free found
        obtain ⟨other, free⟩ : Bracket.backslash ≠ b ∧ Bracket.backslash ∉ angle := by simpa using free
        rw [angleFrom, if_neg (by simpa using other.symm)] at found
        split_ifs at found with closes ends
        · cases found
          simp
        · have le := (angleFrom_getElem found).1
          have line : lf ≠ b := fun same => ends (by simp [same])
          rw [show close - pos = close - (pos + 1) + 1 by omega, List.take_succ_cons]
          simpa [line] using ih (pos + 1) free found
  rintro front blanks angle close rfl - found
  exact inside 0 close angle (fun member => free (by simp [member])) found

/-- No line feed is passed on the way to the closing `>` when each has a carriage return in front of it. -/
theorem angleFrom_crlf_eq_none {escaped : Bool} {pos : Nat} {t : Bytes} (absent : angleFrom escaped pos t = none)
    (pos' : Nat) : angleFrom escaped pos' (crlf t) = none := by
  induction t generalizing escaped pos pos' with
  | nil => rw [Bytes.crlf_nil, angleFrom]
  | cons b t ih =>
      by_cases same : b = lf
      · subst same
        cases escaped <;> rfl
      · rw [Bytes.crlf_cons same]
        cases escaped with
        | true => exact ih absent _
        | false =>
            simp only [angleFrom] at absent ⊢
            split_ifs at absent ⊢
            · exact ih absent _
            · rfl
            · exact ih absent _

theorem angleFrom_crlf_eq_some {escaped : Bool} {pos close : Nat} {t : Bytes}
    (found : angleFrom escaped pos t = some close) (free : lf ∉ t.take (close - pos)) :
    angleFrom escaped pos (crlf t) = some close ∧ lf ∉ t.take (close - pos + 1) := by
  induction t generalizing escaped pos with
  | nil => cases escaped <;> cases found
  | cons b t ih =>
      have inner : ∀ escaped, angleFrom escaped (pos + 1) t = some close →
          b ≠ lf ∧ angleFrom escaped (pos + 1) (crlf t) = some close ∧ lf ∉ (b :: t).take (close - pos + 1) := by
        intro escaped found
        have le := (angleFrom_getElem found).1
        rw [show close - pos = close - (pos + 1) + 1 by omega] at free ⊢
        rw [List.take_succ_cons, List.mem_cons, not_or] at free
        obtain ⟨moved, behind⟩ := ih found free.2
        exact ⟨Ne.symm free.1, moved, by simpa using ⟨free.1, behind⟩⟩
      cases escaped with
      | true =>
          obtain ⟨other, moved, behind⟩ := inner _ found
          rw [Bytes.crlf_cons other]
          exact ⟨moved, behind⟩
      | false =>
          simp only [angleFrom] at found
          split_ifs at found with escape closes ends
          · obtain ⟨other, moved, behind⟩ := inner _ found
            rw [Bytes.crlf_cons other, angleFrom, if_pos escape]
            exact ⟨moved, behind⟩
          · obtain rfl : b = 0x3E := eq_of_beq closes
            cases found
            rw [Nat.sub_self]
            exact ⟨rfl, show lf ∉ [0x3E] by decide⟩
          · obtain ⟨other, moved, behind⟩ := inner _ found
            rw [Bytes.crlf_cons other, angleFrom, if_neg escape, if_neg closes, if_neg ends]
            exact ⟨moved, behind⟩

variable {t : Bytes}

/-- Behind the first byte, blanks are passed alike. -/
theorem drop_blanks_crlf {b : UInt8} (other : b ≠ lf) (t : Bytes) {n : Nat}
    (length : n = (t.takeWhile Bytes.isBlankByte).length) :
    ((crlf (b :: t)).drop 1).takeWhile Bytes.isBlankByte = t.takeWhile Bytes.isBlankByte ∧
    (crlf (b :: t)).drop (1 + n) = crlf (t.drop n) ∧ (b :: t).drop (1 + n) = t.drop n ∧
    reach (b :: t) (1 + n) = 1 + n := by
  have passed := Bytes.reach_takeWhile (p := Bytes.isBlankByte) rfl t
  rw [← length] at passed
  have le := (List.takeWhile_prefix (l := t) Bytes.isBlankByte).length_le
  have reached := Bytes.reach_cons other t n
  have moved := Bytes.drop_crlf (t := t) (n := n) (by omega)
  rw [passed] at reached moved
  rw [Nat.add_comm 1 n, Bytes.crlf_cons other, List.drop_one, List.tail_cons, Bytes.takeWhile_crlf rfl rfl]
  exact ⟨rfl, moved, rfl, reached⟩

theorem definition?_crlf {b : UInt8} (other : b ≠ lf) (t : Bytes) :
    definition? (crlf (b :: t)) = (definition? (b :: t)).map (reach (b :: t)) := by
  obtain ⟨blanks, moved, dropped, reached⟩ := drop_blanks_crlf other t rfl
  simp only [definition?, blanks, moved, show (b :: t).drop 1 = t from rfl, dropped,
    Bytes.takeWhile_crlf (p := fun b => !Bytes.isSpaceByte b) rfl rfl]
  split
  · rfl
  · have target := Bytes.reach_takeWhile (p := fun b => !Bytes.isSpaceByte b) rfl
      (t.drop (t.takeWhile Bytes.isBlankByte).length)
    rw [Option.map_some, Bytes.reach_add, reached, dropped, target]

theorem destination?_crlf {t : Bytes}
    (angles : ∀ blanks angle close, t = blanks ++ 0x3C :: angle → blanks.all Bytes.isBlankByte →
      angleFrom false 0 angle = some close → lf ∉ angle.take close) :
    destination? (crlf (0x28 :: t)) = (destination? (0x28 :: t)).map (reach (0x28 :: t)) := by
  obtain ⟨blanks, moved, dropped, reached⟩ := drop_blanks_crlf (b := 0x28) (by decide) t rfl
  simp only [destination?, blanks, moved, show (0x28 :: t).drop 1 = t from rfl, dropped,
    Bytes.head?_crlf (b := 0x3C) (by decide) (by decide)]
  split
  · rename_i angled
    generalize length : (t.takeWhile Bytes.isBlankByte).length = n at *
    obtain ⟨angle, rest⟩ : ∃ angle, t.drop n = 0x3C :: angle := List.head?_eq_some_iff.mp (eq_of_beq angled)
    have whole : t = t.takeWhile Bytes.isBlankByte ++ 0x3C :: angle := by
      rw [← rest, ← length]
      exact List.prefix_append_drop (List.takeWhile_prefix _)
    rw [rest, Bytes.crlf_cons (by decide)]
    cases found : angleFrom false 0 angle with
    | none => simp only [List.drop_succ_cons, List.drop_zero, angleFrom_crlf_eq_none found, found, Option.map_none]
    | some close =>
        obtain ⟨found', free⟩ := angleFrom_crlf_eq_some found (angles _ angle close whole (by simp) found)
        have lt := angleFrom_lt found
        have passed : reach angle (close + 1) = close + 1 := Bytes.reach_of_free free
        have behind := Bytes.drop_crlf (t := angle) (n := close + 1) (by omega)
        rw [passed] at behind
        simp only [List.drop_succ_cons, List.drop_zero, found, found', behind,
          Bytes.indexOf?_crlf (b := 0x29) (by decide) (by decide), Option.map_map]
        have apart : ∀ i, reach (0x28 :: t) (i + (1 + n + close + 2)) =
            reach (angle.drop (close + 1)) i + (1 + n + close + 2) := by
          intro i
          rw [show i + (1 + n + close + 2) = 1 + n + (close + 1 + i + 1) by omega, Bytes.reach_add, reached, dropped,
            rest, Bytes.reach_cons (by decide), Bytes.reach_add, passed]
          omega
        exact congrArg (Option.map · _) (funext fun i => (apart i).symm)
  · exact Bracket.paren?_crlf _

/-- The destination behind a label. -/
theorem AnglesOnLine.destination?_crlf {front rest : Bytes} (angles : AnglesOnLine (front ++ 0x5D :: 0x28 :: rest)) :
    destination? (crlf (0x28 :: rest)) = (destination? (0x28 :: rest)).map (reach (0x28 :: rest)) := by
  have opening : utf8 "](" = [0x5D, 0x28] := rfl
  refine Inline.destination?_crlf fun blanks angle close same blank => angles front blanks angle close ?_ blank
  rw [same, opening]
  simp

/-- The mark in front of an image stays where it is. -/
theorem reach_bang (t : Bytes) : let bang := if t.head? == some 0x21 then 1 else 0
    bang ≤ t.length ∧ reach t bang = bang := by
  cases t with
  | nil => exact ⟨Nat.le_refl _, rfl⟩
  | cons b t =>
      simp only
      split
      · rename_i same
        obtain rfl : b = 0x21 := by simpa using same
        exact ⟨Nat.succ_le_of_lt (Nat.zero_lt_succ _), rfl⟩
      · exact ⟨Nat.zero_le _, rfl⟩

theorem split_at {n : Nat} {b : UInt8} (here : t[n]? = some b) : t = t.take n ++ b :: t.drop (n + 1) := by
  obtain ⟨_, same⟩ := List.getElem?_eq_some_iff.mp here
  rw [← same, ← List.drop_eq_getElem_cons, List.take_append_drop]

/-- What is behind a label is the same, and everything in it has moved by as much as the label's end. -/
theorem behind_label {t : Bytes} {bang close : Nat} (reached : reach t bang = bang)
    (closed : Bracket.square? (t.drop bang) = some close) :
    (crlf t).drop (bang + reach (t.drop bang) close + 1) = crlf (t.drop (bang + close + 1)) ∧
      ∀ d, reach t (bang + close + 1 + d) =
        bang + reach (t.drop bang) close + 1 + reach (t.drop (bang + close + 1)) d := by
  have bracket := Bracket.closing?_getElem closed
  have inside := Bracket.closing?_lt closed
  rw [List.length_drop] at inside
  have passed : reach t (bang + close + 1) = bang + reach (t.drop bang) close + 1 := by
    rw [Nat.add_assoc, Bytes.reach_add, reached, Bytes.reach_succ bracket (by decide), Nat.add_assoc]
  refine ⟨?_, fun d => ?_⟩
  · have behind := Bytes.drop_crlf (t := t) (n := bang + close + 1) (by omega)
    rwa [passed] at behind
  · rw [Bytes.reach_add, passed]

theorem link?_crlf {t : Bytes} (angles : AnglesOnLine t) (before : Option UInt8) :
    link? before (crlf t) = (link? before t).map (reach t) := by
  obtain ⟨le, reached⟩ := reach_bang t
  simp only [link?, Bytes.head?_crlf (b := 0x21) (by decide) (by decide)]
  generalize (if (t.head? == some 0x21) = true then 1 else 0) = bang at *
  have dropped := Bytes.drop_crlf le
  rw [reached] at dropped
  rw [dropped, Bracket.square?_crlf]
  cases closed : Bracket.square? (t.drop bang) with
  | none => rfl
  | some close =>
      have bracket := Bracket.closing?_getElem closed
      obtain ⟨behind, apart⟩ := behind_label reached closed
      have whole := split_at (List.getElem?_drop ▸ bracket)
      simp only [Option.map_some, behind]
      generalize reach (t.drop bang) close = close' at *
      cases rest : t.drop (bang + close + 1) with
      | nil => rfl
      | cons c rest' =>
          rw [rest] at whole apart
          by_cases line : c = lf
          · subst line
            rfl
          by_cases paren : c = 0x28
          · subst paren
            rw [whole] at angles
            have moved := angles.destination?_crlf
            rw [Bytes.crlf_cons (by decide)] at moved ⊢
            simp only [List.head?_cons, moved]
            cases found : destination? (0x28 :: rest') with
            | none => rfl
            | some d =>
                have ends := Bytes.reach_succ (destination?_getElem found) (by decide)
                simp only [Option.map_some, Nat.add_assoc _ d 1, apart, ends]
                rfl
          by_cases colon : c = 0x3A
          · subst colon
            have moved := definition?_crlf (b := 0x3A) (by decide) rest'
            rw [Bytes.crlf_cons (by decide)] at moved ⊢
            simp only [List.head?_cons, moved]
            split
            · rename_i first
              have none : bang = 0 := by
                rw [Bool.and_eq_true, beq_iff_eq] at first
                exact first.1
              rw [none] at apart
              simp only [Nat.zero_add] at apart
              rw [Option.map_map, Option.map_map]
              exact congrArg (Option.map · _) (funext fun d => (apart d).symm)
            · rfl
          · rw [Bytes.crlf_cons line]
            simp [paren, colon]

theorem autolinkEnd_crlf {g : Nat → Nat} {pos : Nat} {t : Bytes} (tracks : Tracks g pos t) :
    autolinkEnd (g pos) (crlf t) = (autolinkEnd pos t).map g := by
  induction t generalizing pos with
  | nil => rfl
  | cons b t ih =>
      by_cases same : b = lf
      · subst same
        rfl
      · have behind := ih tracks.tail
        rw [tracks.next same] at behind
        rw [Bytes.crlf_cons same, autolinkEnd, autolinkEnd, behind]
        split_ifs <;> rfl

theorem autolink?_crlf (t : Bytes) : autolink? (crlf t) = (autolink? t).map (reach (0x3C :: t)) := by
  cases t with
  | nil => rfl
  | cons b t =>
      by_cases line : b = lf
      · subst line
        rfl
      have schemeOf := Bytes.takeWhile_crlf (p := isSchemeByte) (by decide) (by decide) (b :: t)
      have restOf := Bytes.dropWhile_crlf (p := isSchemeByte) (by decide) (by decide) (b :: t)
      have whole := List.takeWhile_append_dropWhile (p := isSchemeByte) (l := b :: t)
      have free := Bytes.not_mem_takeWhile (p := isSchemeByte) (by decide) (b :: t)
      rw [Bytes.crlf_cons line] at schemeOf restOf ⊢
      simp only [autolink?, schemeOf, restOf, bne, Bytes.head?_crlf (b := 0x3A) (by decide) (by decide)]
      generalize (b :: t).takeWhile isSchemeByte = scheme at *
      generalize (b :: t).dropWhile isSchemeByte = rest at *
      split_ifs with letter other
      · rfl
      · rfl
      simp only [Bool.or_eq_true, Bool.not_eq_true', not_or, Bool.not_eq_false] at other
      obtain ⟨r, rfl⟩ := List.head?_eq_some_iff.mp (eq_of_beq other.1)
      rw [Bytes.crlf_cons (by decide)]
      have ended := autolinkEnd_crlf (Bytes.tracks_self r)
      rw [Bytes.reach_zero] at ended
      simp only [List.drop_succ_cons, List.drop_zero, ended]
      cases found : autolinkEnd 0 r with
      | none => rfl
      | some stop =>
          have ends := Bytes.reach_succ (autolinkEnd_getElem found).2 (by decide)
          have other : lf ≠ 0x3C ∧ lf ≠ 0x3A := by decide
          have front : lf ∉ 0x3C :: scheme ++ [0x3A] := by simp [free, other]
          have passed := Bytes.reach_append_free front r (stop + 1)
          have length : (0x3C :: scheme ++ [0x3A]).length = 1 + scheme.length + 1 := by
            simp only [List.length_append, List.length_cons, List.length_nil]
            omega
          rw [Nat.sub_zero] at ends
          rw [length, ends, List.append_assoc, List.singleton_append, List.cons_append, whole] at passed
          exact congrArg some passed.symm

theorem backticksEnd_crlf {g : Nat → Nat} {pos n : Nat} {t : Bytes} (some : 0 < n) (tracks : Tracks g pos t)
    (run : Nat) :
    backticksEnd n run (g pos) (crlf t) = (backticksEnd n run pos t).map g := by
  induction t generalizing pos run with
  | nil =>
      rw [Bytes.crlf_nil, backticksEnd, backticksEnd]
      split <;> rfl
  | cons b t ih =>
      have behind := ih tracks.tail
      by_cases same : b = lf
      · subst same
        have more : (0 == n) = false := by simpa using Nat.ne_of_lt some
        have lfOther : (lf == 0x60) = false := rfl
        have crOther : (cr == 0x60) = false := rfl
        rw [tracks.next_lf] at behind
        simp only [Bytes.crlf_lf, backticksEnd, lfOther, crOther, more, behind]
        cases run == n <;> rfl
      · rw [tracks.next same] at behind
        rw [Bytes.crlf_cons same, backticksEnd, backticksEnd, behind, behind]
        split_ifs <;> rfl

theorem codeSpanLength_crlf (t : Bytes) :
    codeSpanLength (crlf (0x60 :: t)) = reach (0x60 :: t) (codeSpanLength (0x60 :: t)) := by
  have opening : 0 < ((0x60 :: t : Bytes).takeWhile (· == 0x60)).length := by simp
  have le := (List.takeWhile_prefix (l := (0x60 :: t : Bytes)) (· == 0x60)).length_le
  have passed := Bytes.reach_takeWhile (p := (· == 0x60)) (by decide) (0x60 :: t)
  simp only [codeSpanLength, Bytes.takeWhile_crlf (p := (· == 0x60)) (by decide) (by decide)]
  generalize ((0x60 :: t : Bytes).takeWhile (· == 0x60)).length = n at *
  have dropped := Bytes.drop_crlf le
  have tracks := (Bytes.tracks_self (0x60 :: t)).drop le
  rw [Nat.zero_add] at tracks
  have ended := backticksEnd_crlf opening tracks 0
  rw [passed] at dropped ended
  rw [dropped, ended]
  cases backticksEnd n 0 n ((0x60 :: t).drop n) with
  | none => exact passed.symm
  | some stop => rfl

/-! ## Directives -/

theorem attributesLength_crlf (t : Bytes) : attributesLength (crlf t) = reach t (attributesLength t) := by
  simp only [attributesLength, Bytes.head?_crlf (b := 0x7B) (by decide) (by decide), Bracket.brace?_crlf]
  split
  · cases closed : Bracket.brace? t with
    | none => rfl
    | some close => exact (Bytes.reach_succ (Bracket.closing?_getElem closed) (by decide)).symm
  · rfl

theorem lf_not_mem_name {t : Bytes} {d : DirectiveParts} (found : directive? t = some d) : lf ∉ d.name := by
  obtain ⟨-, -, named, -⟩ := directive?_spelled found
  exact fun member => absurd (named.bytes lf member) (by decide)

theorem directive?_crlf (t : Bytes) : directive? (crlf t) = (directive? t).map fun d =>
    ⟨d.name, crlf d.inner, reach (t.drop (d.name.length + (d.inner.length + 2))) d.attributes⟩ := by
  cases t with
  | nil => rfl
  | cons b t =>
      by_cases line : b = lf
      · subst line
        rfl
      have nameOf := Bytes.takeWhile_crlf (p := isNameByte) (by decide) (by decide) (b :: t)
      have restOf := Bytes.dropWhile_crlf (p := isNameByte) (by decide) (by decide) (b :: t)
      have whole := List.takeWhile_append_dropWhile (p := isNameByte) (l := b :: t)
      rw [Bytes.crlf_cons line] at nameOf restOf ⊢
      simp only [directive?, nameOf, restOf, bne, Bytes.head?_crlf (b := 0x5B) (by decide) (by decide),
        Bracket.square?_crlf]
      generalize (b :: t).takeWhile isNameByte = name at *
      generalize (b :: t).dropWhile isNameByte = rest at *
      split_ifs with letter other
      · rfl
      · rfl
      obtain ⟨r, rfl⟩ : ∃ r, rest = 0x5B :: r := List.head?_eq_some_iff.mp (by simpa using other)
      cases closed : Bracket.square? (0x5B :: r) with
      | none => rfl
      | some close =>
          obtain ⟨some, inside⟩ := Bracket.square?_bounds rfl closed
          have passed := Bytes.reach_succ (Bracket.closing?_getElem closed) (by decide)
          have inner := Bytes.slice_crlf (Nat.succ_le_of_lt some) (Nat.le_of_lt inside)
          have behind := Bytes.drop_crlf (Nat.succ_le_of_lt inside)
          have first : reach (0x5B :: r) (0 + 1) = 1 := rfl
          have length : (Bytes.slice (0x5B :: r) 1 close).length = close - 1 := by
            rw [Bytes.slice, List.length_take, List.length_drop]
            omega
          rw [Nat.succ_eq_add_one, passed] at behind
          rw [Nat.succ_eq_add_one, first] at inner
          have dropped : (b :: t).drop (name.length + (close - 1 + 2)) = (0x5B :: r).drop (close + 1) := by
            rw [← whole, ← List.drop_drop, List.drop_left]
            congr 1
            omega
          simp only [Option.map_some, inner, behind, attributesLength_crlf, length, dropped]

/-- The directive that `d` becomes, where `tail` stands behind its brackets. -/
theorem directiveAt?_crlf {before : Option UInt8} {t : Bytes} {d : DirectiveParts}
    (found : directiveAt? before t = some d) :
    ∃ d', directiveAt? before (crlf t) = some d' ∧ d'.name = d.name ∧ d'.inner = crlf d.inner ∧
      d'.length = reach (0x3A :: t) d.length := by
  unfold directiveAt? at found ⊢
  split_ifs at found ⊢ with may
  have moved := directive?_crlf t
  rw [found, Option.map_some] at moved
  refine ⟨_, moved, rfl, rfl, ?_⟩
  have free := lf_not_mem_name found
  obtain ⟨tail, whole, -, -, attributes⟩ := directive?_spelled found
  have other : lf ≠ 0x3A ∧ lf ≠ 0x5B := by decide
  have front : lf ∉ 0x3A :: d.name ++ [0x5B] := by simp [free, other]
  have text : 0x3A :: t = (0x3A :: d.name ++ [0x5B]) ++ ((d.inner ++ [0x5D]) ++ tail) := by
    rw [whole]
    simp
  have length : d.length = (0x3A :: d.name ++ [0x5B]).length + ((d.inner ++ [0x5D]).length + d.attributes) := by
    simp only [DirectiveParts.length, List.length_append, List.length_cons, List.length_nil]
    omega
  have behind : t.drop (d.name.length + (d.inner.length + 2)) = tail := by
    have joined : t = d.name ++ 0x5B :: (d.inner ++ [0x5D]) ++ tail := by
      rw [whole]
      simp
    rw [joined]
    exact List.drop_left' (by simp)
  rw [length, text, Bytes.reach_append_free front, Bytes.reach_append, behind, Bytes.crlf_append]
  have closing : crlf [0x5D] = [0x5D] := by rw [Bytes.crlf_cons (by decide), Bytes.crlf_nil]
  simp only [DirectiveParts.length, List.length_append, List.length_cons, List.length_nil, closing]
  omega

/-! ## The scan -/

section

variable {g : Nat → Nat} {pos n : Nat} {b : UInt8} {rest : Bytes} (bounds : 0 < n ∧ n ≤ rest.length + 1)
include bounds

/-- What is behind a construct of `n` bytes. -/
theorem drop_construct_crlf (other : b ≠ lf) :
    (crlf rest).drop (reach (b :: rest) n - 1) = crlf (rest.drop (n - 1)) ∧
    lastOf (b :: crlf rest) (reach (b :: rest) n) = lastOf (b :: rest) n := by
  obtain ⟨m, rfl⟩ := Nat.exists_eq_add_of_lt bounds.1
  rw [Nat.zero_add] at bounds ⊢
  refine ⟨?_, ?_⟩
  · rw [Bytes.reach_cons other, Nat.add_sub_cancel, Nat.add_sub_cancel]
    exact Bytes.drop_crlf (by omega)
  · rw [lastOf, ← Bytes.crlf_cons other, Bytes.getElem?_crlf (Nat.zero_lt_succ _), lastOf]

theorem behind_construct (tracks : Tracks g pos (b :: rest)) (angles : AnglesOnLine (b :: rest)) :
    g (pos + n) = g pos + reach (b :: rest) n ∧ Tracks g (pos + n) (rest.drop (n - 1)) ∧
    AnglesOnLine (rest.drop (n - 1)) := by
  have whole : b :: rest = (b :: rest).take n ++ (b :: rest).drop n ++ [] := by simp
  have same : (b :: rest).drop n = rest.drop (n - 1) := by
    obtain ⟨m, rfl⟩ := Nat.exists_eq_add_of_lt bounds.1
    rw [Nat.zero_add, List.drop_succ_cons, Nat.add_sub_cancel]
  have behind := tracks.drop bounds.2
  rw [whole] at angles
  rw [same] at behind angles
  exact ⟨tracks n bounds.2, behind, angles.of_append⟩

/-- Behind a construct the scan finds the same with carriage returns, if it does in what is left of the text. -/
theorem scan_construct_crlf (other : b ≠ lf) (tracks : Tracks g pos (b :: rest)) (angles : AnglesOnLine (b :: rest))
    (behind : Tracks g (pos + n) (rest.drop (n - 1)) → AnglesOnLine (rest.drop (n - 1)) →
      scan (lastOf (b :: rest) n) (g (pos + n)) (crlf (rest.drop (n - 1))) =
        (scan (lastOf (b :: rest) n) (pos + n) (rest.drop (n - 1))).map (Node.relocate g)) :
    scan (lastOf (b :: crlf rest) (reach (b :: rest) n)) (g pos + reach (b :: rest) n)
        ((crlf rest).drop (reach (b :: rest) n - 1)) =
      (scan (lastOf (b :: rest) n) (pos + n) (rest.drop (n - 1))).map (Node.relocate g) := by
  obtain ⟨moved, tracksBehind, anglesBehind⟩ := behind_construct bounds tracks angles
  obtain ⟨dropped, last⟩ := drop_construct_crlf bounds other
  rw [dropped, last, ← moved]
  exact behind tracksBehind anglesBehind

end

theorem behind_byte {g : Nat → Nat} {pos : Nat} {b : UInt8} {rest : Bytes} (tracks : Tracks g pos (b :: rest))
    (angles : AnglesOnLine (b :: rest)) : Tracks g (pos + 1) rest ∧ AnglesOnLine rest :=
  (behind_construct (n := 1) ⟨Nat.zero_lt_one, Nat.le_add_left _ _⟩ tracks angles).2

/-- The same for a single byte that is no line feed. -/
theorem scan_next_crlf {g : Nat → Nat} {pos : Nat} {b : UInt8} {rest : Bytes} (other : b ≠ lf)
    (tracks : Tracks g pos (b :: rest)) (angles : AnglesOnLine (b :: rest))
    (behind : Tracks g (pos + 1) rest → AnglesOnLine rest →
      scan (some b) (g (pos + 1)) (crlf rest) = (scan (some b) (pos + 1) rest).map (Node.relocate g)) :
    scan (some b) (g pos + 1) (crlf rest) = (scan (some b) (pos + 1) rest).map (Node.relocate g) := by
  obtain ⟨tracksBehind, anglesBehind⟩ := behind_byte tracks angles
  rw [← behind tracksBehind anglesBehind, tracks.next other]

theorem inside_directive {g : Nat → Nat} {before : Option UInt8} {pos : Nat} {rest : Bytes} {d : DirectiveParts}
    (found : directiveAt? before rest = some d) (tracks : Tracks g pos (0x3A :: rest))
    (angles : AnglesOnLine (0x3A :: rest)) :
    g (pos + d.name.length + 2) = g pos + d.name.length + 2 ∧ Tracks g (pos + d.name.length + 2) d.inner ∧
    AnglesOnLine d.inner := by
  unfold directiveAt? at found
  split_ifs at found with may
  have free := lf_not_mem_name found
  obtain ⟨tail, whole, -⟩ := directive?_spelled found
  have other : lf ≠ 0x3A ∧ lf ≠ 0x5B := by decide
  have front : lf ∉ 0x3A :: d.name ++ [0x5B] := by simp [free, other]
  have text : 0x3A :: rest = 0x3A :: d.name ++ [0x5B] ++ d.inner ++ 0x5D :: tail := by
    rw [whole]
    simp
  have length : (0x3A :: d.name ++ [0x5B]).length = d.name.length + 2 := by simp
  rw [text] at tracks angles
  have here := tracks.of_append.of_append (d.name.length + 2) (Nat.le_of_eq length.symm)
  rw [← length, Bytes.reach_of_free (by rw [List.take_length]; exact front), length] at here
  have inner := tracks.of_append.behind
  rw [length] at inner
  exact ⟨here, inner, angles.of_append⟩

theorem startsLink_crlf (b : UInt8) (rest : Bytes) : startsLink b (crlf rest) = startsLink b rest := by
  rw [startsLink, Bytes.head?_crlf (by decide) (by decide), startsLink]

/-- The scan finds the same with carriage returns, where it has moved. -/
theorem scan_crlf {g : Nat → Nat} {before : Option UInt8} {pos : Nat} {t : Bytes} (tracks : Tracks g pos t)
    (angles : AnglesOnLine t) :
    scan before (g pos) (crlf t) = (scan before pos t).map (Node.relocate g) := by
  fun_induction scan before pos t with
  | case1 before pos => rw [Bytes.crlf_nil, scan_nil, List.map_nil]
  | case2 before pos b rest escape ih =>
      obtain rfl : b = Bracket.backslash := by simpa using escape
      rw [Bytes.crlf_cons (by decide), scan_escape]
      cases rest with
      | nil => rw [Bytes.crlf_nil, List.drop_nil, scan_nil, scan_nil, List.map_nil]
      | cons c rest =>
          have bounds : 0 < 2 ∧ 2 ≤ (c :: rest).length + 1 := ⟨by decide, by simp⟩
          obtain ⟨moved, tracksBehind, anglesBehind⟩ := behind_construct bounds tracks angles
          have same := ih tracksBehind anglesBehind
          rw [moved, Bytes.reach_cons (by decide)] at same
          by_cases line : c = lf
          · -- Only the carriage return is escaped, and the line feed behind it means nothing.
            subst line
            rw [Bytes.crlf_lf]
            exact (scan_inert (isPlain_lf.inert _)).trans same
          · rw [Bytes.crlf_cons line]
            rw [Bytes.reach_cons line] at same
            exact same
  | case3 before pos b rest _ backtick n ih =>
      obtain rfl : b = 0x60 := by simpa using backtick
      have length := codeSpanLength_crlf rest
      rw [Bytes.crlf_cons (by decide)] at length ⊢
      rw [scan_code length]
      exact scan_construct_crlf (codeSpanLength_bounds rest) (by decide) tracks angles ih
  | case4 before pos b rest _ _ colon d found ihInner ihBehind =>
      obtain rfl : b = 0x3A := by simpa using colon
      have bounds : 0 < d.length ∧ d.length ≤ rest.length + 1 := ⟨length_pos d, length_le_of_directiveAt? found⟩
      obtain ⟨opened, tracksInner, anglesInner⟩ := inside_directive found tracks angles
      obtain ⟨d', found', name, inner, length⟩ := directiveAt?_crlf found
      have held := ihInner tracksInner anglesInner
      rw [opened] at held
      rw [Bytes.crlf_cons (by decide), scan_directive found', name, inner, length, held,
        scan_construct_crlf bounds (by decide) tracks angles ihBehind, List.map_cons, List.map_append, Node.relocate,
        tracks d.length bounds.2]
  | case5 before pos b rest _ _ colon none ih =>
      obtain rfl : b = 0x3A := by simpa using colon
      have none' : directiveAt? before (crlf rest) = Option.none := by
        unfold directiveAt? at none ⊢
        split_ifs at none ⊢
        · rw [directive?_crlf, none, Option.map_none]
        · rfl
      rw [Bytes.crlf_cons (by decide), scan_colon none']
      exact scan_next_crlf (by decide) tracks angles ih
  | case6 before pos b rest _ _ _ starts n found ih =>
      have bounds := link?_bounds found
      rw [List.length_cons] at bounds
      have other : b ≠ lf := by obtain rfl | rfl := startsLink_cases starts <;> decide
      have found' := link?_crlf angles before
      rw [found, Bytes.crlf_cons other] at found'
      rw [Bytes.crlf_cons other, scan_bracket ((startsLink_crlf b rest).trans starts) found', Option.map_some,
        Option.elim_some, scan_construct_crlf bounds other tracks angles ih, List.map_cons, Node.relocate,
        tracks n bounds.2]
  | case7 before pos b rest _ _ _ starts none ih =>
      have other : b ≠ lf := by obtain rfl | rfl := startsLink_cases starts <;> decide
      have none' := link?_crlf angles before
      rw [none, Bytes.crlf_cons other] at none'
      rw [Bytes.crlf_cons other, scan_bracket ((startsLink_crlf b rest).trans starts) none', Option.map_none,
        Option.elim_none]
      exact scan_next_crlf other tracks angles ih
  | case8 before pos b rest _ _ _ _ angle n found ih =>
      obtain rfl : b = 0x3C := by simpa using angle
      have bounds := autolink?_bounds found
      have found' := autolink?_crlf rest
      rw [found] at found'
      rw [Bytes.crlf_cons (by decide), scan_angle found', Option.map_some, Option.elim_some,
        scan_construct_crlf bounds (by decide) tracks angles ih, List.map_cons, Node.relocate, tracks n bounds.2]
  | case9 before pos b rest _ _ _ _ angle none ih =>
      obtain rfl : b = 0x3C := by simpa using angle
      have none' := autolink?_crlf rest
      rw [none] at none'
      rw [Bytes.crlf_cons (by decide), scan_angle none', Option.map_none, Option.elim_none]
      exact scan_next_crlf (by decide) tracks angles ih
  | case10 before pos b rest escape backtick colon link angle ih =>
      obtain ⟨tracksBehind, anglesBehind⟩ := behind_byte tracks angles
      have same := ih tracksBehind anglesBehind
      by_cases line : b = lf
      · subst line
        rw [tracks.next_lf] at same
        rw [Bytes.crlf_lf, scan_inert (isPlain_cr.inert _), scan_inert (isPlain_lf.inert _)]
        exact same
      · have inert : Inert b (crlf rest) := by
          simp only [beq_iff_eq, Bool.not_eq_true] at escape backtick colon link angle
          exact ⟨escape, backtick, colon, (startsLink_crlf b rest).trans link, angle⟩
        rw [tracks.next line] at same
        rw [Bytes.crlf_cons line, scan_inert inert]
        exact same

/-- Paragraphs hold nothing but directives and links. -/
theorem kind_of_mem_scan {before : Option UInt8} {pos : Nat} {t : Bytes} {n : Node} (member : n ∈ scan before pos t) :
    n.kind = .directive ∨ n.kind = .link := by
  revert member
  fun_induction scan before pos t with
  | case1 => exact fun member => absurd member List.not_mem_nil
  | case2 before pos b rest escape ih | case3 before pos b rest escape backtick m ih => exact ih
  | case4 before pos b rest _ _ colon d found ihInner ihBehind =>
      intro member
      obtain rfl | member := List.mem_cons.mp member
      · exact .inl rfl
      · exact (List.mem_append.mp member).elim ihInner ihBehind
  | case5 before pos b rest _ _ _ _ ih | case7 before pos b rest _ _ _ _ _ ih
  | case9 before pos b rest _ _ _ _ _ _ ih | case10 before pos b rest _ _ _ _ _ ih => exact ih
  | case6 before pos b rest _ _ _ _ m _ ih | case8 before pos b rest _ _ _ _ _ m _ ih =>
      intro member
      obtain rfl | member := List.mem_cons.mp member
      · exact .inr rfl
      · exact ih member

end Inline

/-! ## Lines and the header -/

/-- With carriage returns, the lines have the same contents and start and stop where they have moved. -/
theorem Line.ofText_crlf {g : Nat → Nat} {pos : Nat} {t : Bytes} (noReturn : cr ∉ t) (tracks : Tracks g pos t) :
    ofText (g pos) (crlf t) = (ofText pos t).map (Line.relocate g) ∧
    ∀ l ∈ ofText pos t, g l.stop = g l.start + l.content.length := by
  induction t using Bytes.lineInduction generalizing pos with
  | last t free =>
      have moved := tracks t.length (Nat.le_refl _)
      rw [Bytes.reach_of_free (by rwa [List.take_length])] at moved
      rw [Bytes.crlf_eq_self free, ofText_last free, ofText_last free, dropReturn_eq_self noReturn]
      split
      · exact ⟨rfl, List.forall_mem_nil _⟩
      · rw [List.map_singleton, Line.relocate, moved]
        exact ⟨rfl, List.forall_mem_singleton.mpr moved⟩
  | more line rest free ih =>
      simp only [List.mem_append, List.mem_cons, not_or] at noReturn
      obtain ⟨here, -, behind⟩ := noReturn
      have reached := Bytes.reach_append_free free (lf :: rest)
      have stop := tracks line.length (by simp)
      have next := tracks (line.length + 1) (by simp)
      have first := reached 0
      rw [Bytes.reach_zero, Nat.add_zero] at first
      rw [first] at stop
      rw [reached 1, Bytes.reach_lf, Bytes.reach_zero, ← Nat.add_assoc] at next
      obtain ⟨others, stops⟩ := ih behind tracks.behind.tail
      have other : lf ≠ cr := by decide
      have free' : lf ∉ line ++ [cr] := by simp [free, other]
      have split : crlf (line ++ lf :: rest) = line ++ [cr] ++ lf :: crlf rest := by
        rw [Bytes.crlf_append, Bytes.crlf_eq_self free, Bytes.crlf_lf, List.append_assoc]
        rfl
      have content : dropReturn (line ++ [cr]) = line := by
        rw [dropReturn, List.getLast?_concat, if_pos (beq_self_eq_true _), List.dropLast_concat]
      have next' : g pos + (line ++ [cr]).length + 1 = g (pos + line.length + 1) := by
        rw [next, List.length_append, List.length_singleton]
        omega
      rw [split, ofText_line free', ofText_line free, content, next', others, List.map_cons, Line.relocate,
        dropReturn_eq_self here]
      exact ⟨rfl, List.forall_mem_cons.mpr ⟨stop, stops⟩⟩

def Header.relocate (f : Nat → Nat) (h : Header) : Header :=
  ⟨h.closed, ⟨f h.content.start, f h.content.stop⟩, f h.stop⟩

theorem Header.ofText?_crlf {t : Bytes} (noReturn : cr ∉ t) :
    ofText? (crlf t) = (ofText? t).map (Header.relocate (reach t)) := by
  obtain ⟨lines, stops⟩ := Line.ofText_crlf noReturn (Bytes.tracks_self t)
  rw [Bytes.reach_zero] at lines
  unfold ofText?
  rw [lines]
  cases known : Line.ofText 0 t with
  | nil => rfl
  | cons opening rest =>
      rw [known] at stops
      have bareOf : ∀ l : Line, bare (l.relocate (reach t)) = bare l := fun _ => rfl
      have ended : ((opening.relocate (reach t)).next != (opening.relocate (reach t)).stop) =
          (opening.next != opening.stop) := by
        have stop : (opening.relocate (reach t)).stop = reach t opening.stop := (stops opening List.mem_cons_self).symm
        rw [stop, Line.relocate, bne, bne, Bool.eq_iff_iff]
        simp only [Bool.not_eq_true', beq_eq_false_iff_ne, ne_eq, Bytes.reach_inj]
      have closing : (rest.map (Line.relocate (reach t))).find? closes =
          (rest.find? closes).map (Line.relocate (reach t)) := by
        rw [List.find?_map]
        rfl
      simp only [List.map_cons, bareOf, ended, closing]
      split
      · cases rest.find? closes with
        | none =>
            simp only [Option.map_none, Bytes.length_crlf]
            rfl
        | some l => rfl
      · rfl

/-! ## Documents -/

/-- The kinds that the lines alone decide. -/
def Kind.isBlock (k : Kind) : Bool := k != .directive && k != .link

theorem pick_isBlock_scan (before : Option UInt8) (pos : Nat) (t : Bytes) :
    pick Kind.isBlock (Inline.scan before pos t) = [] := by
  refine List.filter_eq_nil_iff.mpr fun n member => ?_
  obtain kind | kind := Inline.kind_of_mem_scan member <;> rw [kind] <;> decide

section

variable {t : Bytes} {keep : Kind → Bool}

theorem body_crlf (noReturn : cr ∉ t) : (ofText (crlf t)).body = reach t (ofText t).body := by
  change bodyOf (Header.ofText? (crlf t)) = reach t (bodyOf (Header.ofText? t))
  rw [Header.ofText?_crlf noReturn]
  cases Header.ofText? t with
  | none => rfl
  | some h => rfl

/-- As far as the paragraphs hold the same, the nodes are the same where they have moved. -/
theorem nodes_crlf (noReturn : cr ∉ t)
    (agrees : Block.Agrees keep (reach t) t (crlf t) (ofText t).body t.length) :
    pick keep (ofText (crlf t)).nodes = (pick keep (ofText t).nodes).map (Node.relocate (reach t)) := by
  have le : (ofText t).body ≤ t.length := body_le t
  have tracks := (Bytes.tracks_self t).drop le
  rw [Nat.zero_add] at tracks
  obtain ⟨lines, stops⟩ := Line.ofText_crlf (fun member => noReturn (List.mem_of_mem_drop member)) tracks
  rw [← Bytes.drop_crlf le] at lines
  have found := bodyNodes_relocate (fun _ _ lt => Bytes.reach_lt t lt) le (body_crlf noReturn ▸ body_le (crlf t)) lines
    stops (Bytes.length_crlf t) agrees
  rw [← body_crlf noReturn] at found
  exact found

theorem agrees_crlf (angles : Inline.AnglesOnLine (t.drop (ofText t).body)) :
    Block.Agrees (fun _ => true) (reach t) t (crlf t) (ofText t).body t.length := by
  intro start stop left order right
  have tracks := (Bytes.tracks_self t).drop (Nat.le_trans order right)
  have split : t.drop start = t.slice start stop ++ t.drop stop := by
    have parts := List.take_append_drop (stop - start) (t.drop start)
    rw [List.drop_drop, Nat.add_sub_cancel' order] at parts
    exact parts.symm
  have whole : t.drop (ofText t).body =
      (t.drop (ofText t).body).take (start - (ofText t).body) ++ t.slice start stop ++ t.drop stop := by
    have parts := List.take_append_drop (start - (ofText t).body) (t.drop (ofText t).body)
    rw [List.drop_drop, Nat.add_sub_cancel' left, split, ← List.append_assoc] at parts
    exact parts.symm
  rw [Nat.zero_add, split] at tracks
  rw [whole] at angles
  rw [pick_all, pick_all, Block.flush, Block.flush, Bytes.slice_crlf order right]
  exact Inline.scan_crlf tracks.of_append angles.of_append

end

/-- Whether a text ends its lines with line feeds or with carriage returns and line feeds decides nothing about its
header and its blocks, and nothing about its directives and links as long as no destination in angle brackets goes on
behind the end of a line: they lie where they have moved. -/
theorem line_endings_move_nodes (t : Bytes) (noReturn : cr ∉ t) :
    let d := ofText t
    let d' := ofText (crlf t)
    d'.header = d.header.map (Header.relocate (reach t)) ∧ d'.body = reach t d.body ∧
    pick Kind.isBlock d'.nodes = (pick Kind.isBlock d.nodes).map (Node.relocate (reach t)) ∧
    (Inline.AnglesOnLine (t.drop d.body) → d'.nodes = d.nodes.map (Node.relocate (reach t))) := by
  refine ⟨Header.ofText?_crlf noReturn, body_crlf noReturn, nodes_crlf noReturn ?_, fun angles => ?_⟩
  · intro start stop _ _ _
    rw [Block.flush, Block.flush, Inline.nodes, Inline.nodes, pick_isBlock_scan, pick_isBlock_scan, List.map_nil]
  · have found := nodes_crlf noReturn (agrees_crlf angles)
    rw [pick_all, pick_all] at found
    exact found

/-- A header, and a directive over two lines with a link in it. -/
theorem line_endings_move_nodes_directive :
    let t := utf8 "---\na: 1\n---\n:b[x\n[c](<d>)]\n"
    cr ∉ t ∧ Inline.AnglesOnLine (t.drop (ofText t).body) ∧ (ofText t).body = 13 ∧ (ofText (crlf t)).body = 16 ∧
    (ofText (crlf t)).nodes = (ofText t).nodes.map (Node.relocate (reach t)) := by
  intro t
  have noReturn : cr ∉ t := by decide +kernel
  have start : (ofText t).body = 13 := by decide +kernel
  have angles : Inline.AnglesOnLine (t.drop (ofText t).body) := .of_unescaped (by decide +kernel)
  obtain ⟨-, body, -, nodes⟩ := line_endings_move_nodes t noReturn
  refine ⟨noReturn, angles, start, ?_, nodes angles⟩
  rw [body, start]
  decide +kernel

/-- A backslash lets a line feed into a destination in angle brackets, but no carriage return and line feed. -/
theorem line_endings_lose_destination :
    let t := utf8 "[a](<b\\\nc>)"
    cr ∉ t ∧ (ofText t).nodes = [⟨.link, [], 0, 11, 0⟩] ∧ (ofText (crlf t)).nodes = [] := by
  decide +kernel

end Colloquy.Document
