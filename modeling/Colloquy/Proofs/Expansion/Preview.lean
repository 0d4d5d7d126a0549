import Colloquy.Expansion
import Colloquy.Proofs.Text.Rune
import Mathlib.Algebra.Ring.Parity
import Mathlib.Data.List.DropRight

/-! # Previews of expansions

A preview is the text of an expansion, or the first runes of it, with one backslash put before every backtick. A
backtick is text and not markup where an odd number of backslashes stand before it. The backslash makes an odd number
of an even one, and an even number of an odd one: a backtick that the expansion has behind a backslash, as text
already, is markup in the preview.
-/

namespace Colloquy.Expansions

/-- The number of backslashes at the end of a text. -/
def backslashes (t : Bytes) : Nat := (t.rtakeWhile (· == 0x5C)).length

theorem backslashes_concat (t : Bytes) (b : UInt8) :
    backslashes (t ++ [b]) = if b = 0x5C then backslashes t + 1 else 0 := by
  rw [backslashes, List.rtakeWhile_concat]
  by_cases slash : b = 0x5C
  · rw [if_pos (by simp [slash]), if_pos slash, List.length_append]
    rfl
  · rw [if_neg (by simp [slash]), if_neg slash]
    rfl

theorem backslashes_eq_zero {t : Bytes} (free : 0x5C ∉ t) : backslashes t = 0 := by
  cases t using List.reverseRecOn with
  | nil => rfl
  | append_singleton t b =>
      rw [backslashes_concat, if_neg]
      rintro rfl
      exact free (List.mem_append_right _ (List.mem_singleton_self _))

/-- Every backtick is behind an odd number of backslashes, so none is markup. -/
def IsLiteral (t : Bytes) : Prop := ∀ before after, t = before ++ 0x60 :: after → Odd (backslashes before)

/-- The text with a backslash before each backtick. -/
def escaped (t : Bytes) : Bytes := t.flatMap fun b => if b == 0x60 then [0x5C, 0x60] else [b]

@[simp] theorem escaped_nil : escaped [] = [] := rfl

@[simp] theorem escaped_tick (t : Bytes) : escaped (0x60 :: t) = 0x5C :: 0x60 :: escaped t := rfl

theorem escaped_cons {b : UInt8} (other : b ≠ 0x60) (t : Bytes) : escaped (b :: t) = b :: escaped t := by
  rw [escaped, List.flatMap_cons, if_neg (by simp [other])]
  rfl

theorem escaped_append (t u : Bytes) : escaped (t ++ u) = escaped t ++ escaped u := List.flatMap_append

/-- The text without the backslash that stands before each backtick. -/
def withoutEscapes : Bytes → Bytes
  | [] => []
  | 0x5C :: 0x60 :: t => 0x60 :: withoutEscapes t
  | b :: t => b :: withoutEscapes t

theorem withoutEscapes_cons {b : UInt8} {t : Bytes} (other : ¬ (b = 0x5C ∧ t.head? = some 0x60)) :
    withoutEscapes (b :: t) = b :: withoutEscapes t := by
  rw [withoutEscapes]
  rintro u rfl rfl
  exact other ⟨rfl, rfl⟩

/-- A text that is escaped never starts with a backtick. -/
theorem head?_escaped (t : Bytes) : (escaped t).head? ≠ some 0x60 := by
  cases t with
  | nil => simp
  | cons b t =>
      by_cases tick : b = 0x60
      · subst tick
        simp
      · simp [escaped_cons tick, tick]

theorem withoutEscapes_of_not_mem {t : Bytes} (plain : 0x60 ∉ t) : withoutEscapes t = t := by
  induction t with
  | nil => rfl
  | cons b t ih =>
      rw [List.mem_cons, not_or] at plain
      have other : ¬ (b = 0x5C ∧ t.head? = some 0x60) := fun h => plain.2 (List.mem_of_mem_head? h.2)
      rw [withoutEscapes_cons other, ih plain.2]

/-- What was put before the backticks is what is taken away, where no backtick follows the text. -/
theorem withoutEscapes_escaped (t : Bytes) {u : Bytes} (plain : 0x60 ∉ u) :
    withoutEscapes (escaped t ++ u) = t ++ u := by
  induction t with
  | nil => exact withoutEscapes_of_not_mem plain
  | cons b t ih =>
      by_cases tick : b = 0x60
      · subst tick
        rw [escaped_tick, List.cons_append, List.cons_append, withoutEscapes, ih]
        rfl
      · have other : ¬ (b = 0x5C ∧ (escaped t ++ u).head? = some 0x60) := by
          rintro ⟨-, first⟩
          rw [List.head?_append] at first
          cases start : (escaped t).head? with
          | none =>
              rw [start] at first
              exact plain (List.mem_of_mem_head? first)
          | some c =>
              rw [start] at first
              cases first
              exact head?_escaped t start
        rw [escaped_cons tick, List.cons_append, withoutEscapes_cons other, ih]
        rfl

theorem backslashes_escaped (t : Bytes) : backslashes (escaped t) = backslashes t := by
  induction t using List.reverseRecOn with
  | nil => rfl
  | append_singleton t b ih =>
      rw [escaped_append, backslashes_concat]
      by_cases tick : b = 0x60
      · subst tick
        have two : escaped t ++ escaped [0x60] = (escaped t ++ [0x5C]) ++ [0x60] := by simp
        rw [two, backslashes_concat]
        rfl
      · rw [escaped_cons tick, escaped_nil, backslashes_concat, ih]

/-- The backticks of an escaped text are those of the text, each behind a backslash more. -/
theorem escaped_eq_append_tick {t before after : Bytes} :
    escaped t = before ++ 0x60 :: after ↔
      ∃ u v, t = u ++ 0x60 :: v ∧ before = escaped u ++ [0x5C] ∧ after = escaped v := by
  constructor
  · intro split
    induction t generalizing before with
    | nil => simp at split
    | cons b t ih =>
        by_cases tick : b = 0x60
        · subst tick
          rw [escaped_tick] at split
          cases before with
          | nil => cases split
          | cons c before =>
              cases before with
              | nil =>
                  cases split
                  exact ⟨[], t, rfl, rfl, rfl⟩
              | cons d before =>
                  injection split with first rest
                  injection rest with second rest
                  subst first second
                  obtain ⟨u, v, rfl, rfl, rfl⟩ := ih rest
                  exact ⟨0x60 :: u, v, rfl, rfl, rfl⟩
        · rw [escaped_cons tick] at split
          cases before with
          | nil =>
              injection split with first
              exact absurd first tick
          | cons c before =>
              injection split with first rest
              subst first
              obtain ⟨u, v, rfl, rfl, rfl⟩ := ih rest
              exact ⟨b :: u, v, rfl, by rw [escaped_cons tick]; rfl, rfl⟩
  · rintro ⟨u, v, rfl, rfl, rfl⟩
    rw [escaped_append, escaped_tick, List.append_assoc]
    rfl

/-- An escaped text is literal exactly if in the text itself no backtick is. -/
theorem isLiteral_escaped {t u : Bytes} (plain : 0x60 ∉ u) :
    IsLiteral (escaped t ++ u) ↔ ∀ before after, t = before ++ 0x60 :: after → Even (backslashes before) := by
  constructor
  · rintro literal before after rfl
    have odd := literal (escaped before ++ [0x5C]) (escaped after ++ u) (by
      rw [escaped_append, escaped_tick]
      simp)
    rw [backslashes_concat, if_pos rfl, backslashes_escaped, Nat.odd_add_one, Nat.not_odd_iff_even] at odd
    exact odd
  · intro even before after split
    rcases List.append_eq_append_iff.mp split with ⟨more, rfl, tail⟩ | ⟨more, front, tail⟩
    · subst tail
      exact absurd (List.mem_append_right _ (List.mem_cons_self ..)) plain
    · cases more with
      | nil =>
          subst tail
          exact absurd (List.mem_cons_self ..) plain
      | cons b more =>
          injection tail with first rest
          subst first
          obtain ⟨v, w, rfl, rfl, -⟩ := escaped_eq_append_tick.mp front
          rw [backslashes_concat, if_pos rfl, backslashes_escaped, Nat.odd_add_one, Nat.not_odd_iff_even]
          exact even v w rfl

/-- What a preview shows of an expansion: the first `limit` runes, if there is a limit and the expansion is longer. -/
def excerpt (m : Macro) (limit : Int) : Bytes :=
  if 0 < limit ∧ limit < (Bytes.codes m.expansion).length then Bytes.ofCodes ((Bytes.codes m.expansion).take limit.toNat)
  else m.expansion

/-- What a preview ends with. -/
def ellipsis (m : Macro) (limit : Int) : Bytes :=
  if 0 < limit ∧ limit < (Bytes.codes m.expansion).length then utf8 "…" else []

theorem previewOf_eq (m : Macro) (limit : Int) :
    previewOf m limit = escaped (excerpt m limit) ++ ellipsis m limit := by
  rw [previewOf, excerpt, ellipsis, escaped]
  simp only [Bool.and_eq_true, decide_eq_true_eq]

theorem not_mem_ellipsis (m : Macro) (limit : Int) : 0x60 ∉ ellipsis m limit := by
  rw [ellipsis]
  split
  · decide
  · simp

/-- An excerpt of valid UTF-8 is a beginning of it and cuts no rune. -/
theorem codes_excerpt {m : Macro} (valid : Bytes.isUtf8 m.expansion = true) (limit : Int) :
    excerpt m limit <+: m.expansion ∧ Bytes.codes (excerpt m limit) =
      if 0 < limit ∧ limit < (Bytes.codes m.expansion).length then (Bytes.codes m.expansion).take limit.toNat
      else Bytes.codes m.expansion := by
  rw [excerpt]
  by_cases cut : 0 < limit ∧ limit < (Bytes.codes m.expansion).length
  · rw [if_pos cut, if_pos cut]
    obtain ⟨front, rest, whole, first, -⟩ := (Bytes.spells_codes valid).split limit.toNat
    rw [first.ofCodes_eq, first.codes_eq]
    exact ⟨⟨rest, whole.symm⟩, rfl⟩
  · rw [if_neg cut, if_neg cut]
    exact ⟨List.prefix_rfl, rfl⟩

/-- A preview keeps its backticks from being markup exactly if none of them is behind an odd number of backslashes in
the expansion. Without what was put before the backticks it is the expansion, or what the limit leaves of it and an
ellipsis. -/
theorem preview_literal_unless_escaped {x : Expansions} {name : Bytes} {m : Macro} (found : x.lookup? name = some m)
    (limit : Int) :
    ∃ text, x.preview? name limit = some text ∧
      (IsLiteral text ↔
        ∀ before after, excerpt m limit = before ++ 0x60 :: after → Even (backslashes before)) ∧
      withoutEscapes text = excerpt m limit ++ ellipsis m limit ∧
      (Bytes.isUtf8 m.expansion = true → excerpt m limit <+: m.expansion ∧ Bytes.codes (excerpt m limit) =
        if 0 < limit ∧ limit < (Bytes.codes m.expansion).length then (Bytes.codes m.expansion).take limit.toNat
        else Bytes.codes m.expansion) := by
  have plain := not_mem_ellipsis m limit
  refine ⟨previewOf m limit, by rw [preview?, found]; rfl, ?_, ?_, ?_⟩
  · rw [previewOf_eq]
    exact isLiteral_escaped plain
  · rw [previewOf_eq]
    exact withoutEscapes_escaped _ plain
  · intro valid
    exact codes_excerpt valid limit

/-- An expansion that is cut behind its second backtick. -/
theorem preview_literal_unless_escaped_code :
    let m : Macro := ⟨utf8 "code", utf8 "run `ls` now and then some more", default, default⟩
    let x : Expansions := ⟨[m]⟩
    let text := utf8 "run \\`ls\\` n…"
    x.lookup? (utf8 "CODE") = some m ∧ x.preview? (utf8 "CODE") 10 = some text ∧ IsLiteral text ∧
      withoutEscapes text = utf8 "run `ls` n…" := by
  intro m x text
  have found : x.lookup? (utf8 "CODE") = some m := by decide
  have shown : x.preview? (utf8 "CODE") 10 = some text := by decide
  obtain ⟨text', shown', literal, bare, -⟩ := preview_literal_unless_escaped found 10
  obtain rfl : text = text' := Option.some_inj.mp (shown.symm.trans shown')
  have cut : excerpt m 10 = utf8 "run `ls` n" := by decide
  have dots : ellipsis m 10 = utf8 "…" := by decide
  have free : 0x5C ∉ excerpt m 10 := by
    rw [cut]
    decide
  refine ⟨found, shown, literal.mpr ?_, ?_⟩
  · intro before after split
    rw [split] at free
    rw [backslashes_eq_zero fun slash => free (List.mem_append_left _ slash)]
    exact Even.zero
  · rw [bare, cut, dots]
    decide

/-- A backtick that the expansion has as text is markup in the preview, behind two backslashes. -/
theorem preview_revives_backtick :
    let m : Macro := ⟨utf8 "m", utf8 "\\`", default, default⟩
    let text := utf8 "\\\\`"
    (⟨[m]⟩ : Expansions).preview? (utf8 "m") 600 = some text ∧ ¬ IsLiteral text := by
  intro m text
  have shown : (⟨[m]⟩ : Expansions).preview? (utf8 "m") 600 = some text := by decide
  refine ⟨shown, ?_⟩
  intro literal
  have odd := literal (utf8 "\\\\") [] (by decide)
  have two : backslashes (utf8 "\\\\") = 2 := by decide
  rw [two] at odd
  exact absurd odd (by decide)

end Colloquy.Expansions
