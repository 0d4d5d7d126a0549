import Colloquy.Proofs.Text.Bytes
import Colloquy.Web.Escape

/-! # Escapes in paths

Escaping a path writes bytes that can stand in one, and resolving the escapes gives the path back. Resolving a text
that was not escaped changes it exactly if there is a percent sign in it and every percent sign starts an escape; the
text then gets shorter.
-/

namespace Colloquy.Web

theorem hexValue?_hexDigit {n : Nat} (digit : n < 16) : Bytes.hexValue? (hexDigit n) = some n := by
  have all : ∀ n : Fin 16, Bytes.hexValue? (hexDigit n) = some n.val := by decide
  exact all ⟨n, digit⟩

theorem allows_hexDigit {n : Nat} (digit : n < 16) : Part.path.allows (hexDigit n) = true := by
  have all : ∀ n : Fin 16, Part.path.allows (hexDigit n) = true := by decide
  exact all ⟨n, digit⟩

theorem percent_not_allowed : Part.path.allows 0x25 = false := by decide

/-! ## Resolving escapes -/

theorem unescape?_plain {b : UInt8} (plain : b ≠ 0x25) (rest : Bytes) :
    unescape? .path (b :: rest) = (unescape? .path rest).map (b :: ·) := by
  rw [unescape?.eq_3 _ _ _ fun _ _ _ same _ => plain same]
  simp [plain, Part.allowsPlain]

theorem unescape?_escapeByte (b : UInt8) (rest : Bytes) :
    unescape? .path (escapeByte b ++ rest) = (unescape? .path rest).map (b :: ·) := by
  have small := b.toNat_lt
  have byte : (b.toNat / 16 * 16 + b.toNat % 16).toUInt8 = b := by
    rw [Nat.div_add_mod']
    exact UInt8.ofNat_toNat
  have high := hexValue?_hexDigit (n := b.toNat / 16) (by omega)
  have low := hexValue?_hexDigit (n := b.toNat % 16) (by omega)
  simp only [escapeByte, List.cons_append, List.nil_append, unescape?, high, low, Part.allowsEscape]
  simp only [bind, Option.bind_some, byte, pure]
  cases unescape? .path rest <;> rfl

theorem unescape?_escape (t : Bytes) : unescape? .path (escape .path t) = some t := by
  induction t with
  | nil => rfl
  | cons b rest ih =>
      rw [escape, List.flatMap_cons]
      rw [escape] at ih
      split
      · rename_i allowed
        have plain : b ≠ 0x25 := fun same => by simp [same, percent_not_allowed] at allowed
        rw [List.singleton_append, unescape?_plain plain, ih]
        rfl
      · rw [if_neg (by simp), unescape?_escapeByte, ih]
        rfl

theorem escape_inj {t u : Bytes} (same : escape .path t = escape .path u) : t = u := by
  have read := congrArg (unescape? .path) same
  rw [unescape?_escape, unescape?_escape] at read
  exact Option.some.inj read

theorem mem_escape {t : Bytes} {b : UInt8} (member : b ∈ escape .path t) : b = 0x25 ∨ Part.path.allows b = true := by
  obtain ⟨c, -, member⟩ := List.mem_flatMap.mp member
  have small := c.toNat_lt
  split at member
  · rename_i allowed
    exact .inr (List.mem_singleton.mp member ▸ allowed)
  · rw [if_neg (by simp), escapeByte] at member
    simp only [List.mem_cons, List.not_mem_nil, or_false] at member
    obtain rfl | rfl | rfl := member
    · exact .inl rfl
    · exact .inr (allows_hexDigit (by omega))
    · exact .inr (allows_hexDigit (by omega))

/-! ## Texts that were not escaped -/

/-- What is left of a text when escapes in it are resolved; a text with broken escapes stays. -/
def resolved (t : Bytes) : Bytes := (unescape? .path t).getD t

/-- There are escapes in the text, and no other percent signs. -/
def HasEscapes (t : Bytes) : Prop := 0x25 ∈ t ∧ (unescape? .path t).isSome = true

theorem unescape?_of_plain {t : Bytes} (plain : 0x25 ∉ t) : unescape? .path t = some t := by
  induction t with
  | nil => rfl
  | cons b rest ih =>
      obtain ⟨other, plain⟩ := not_or.mp (List.mem_cons.not.mp plain)
      rw [unescape?_plain (Ne.symm other), ih plain]
      rfl

theorem length_unescape? {t u : Bytes} (read : unescape? .path t = some u) :
    u.length ≤ t.length ∧ (0x25 ∈ t → u.length < t.length) := by
  fun_induction unescape? .path t generalizing u with
  | case1 => simp_all
  | case2 a b rest ih =>
      simp only [bind, Option.bind_eq_some_iff, Part.allowsEscape, if_pos] at read
      obtain ⟨_, _, _, _, v, behind, same⟩ := read
      obtain rfl := Option.some.inj same
      have shorter := (ih behind).1
      simp only [List.length_cons]
      omega
  | case3 b rest notEscape broken => simp at read
  | case4 b rest notEscape plain ih =>
      obtain ⟨v, behind, rfl⟩ := Option.map_eq_some_iff.mp read
      obtain ⟨shorter, strictly⟩ := ih behind
      refine ⟨Nat.succ_le_succ shorter, fun member => Nat.succ_lt_succ (strictly ?_)⟩
      obtain rfl | member := List.mem_cons.mp member
      · simp at plain
      · exact member

theorem resolved_plain {b : UInt8} (plain : b ≠ 0x25) (rest : Bytes) : resolved (b :: rest) = b :: resolved rest := by
  rw [resolved, unescape?_plain plain, resolved]
  cases unescape? .path rest <;> rfl

theorem length_resolved_lt {t : Bytes} (escaped : HasEscapes t) : (resolved t).length < t.length := by
  obtain ⟨u, read⟩ := Option.isSome_iff_exists.mp escaped.2
  rw [resolved, read]
  exact (length_unescape? read).2 escaped.1

theorem resolved_of_not {t : Bytes} (plain : ¬ HasEscapes t) : resolved t = t := by
  by_cases percent : 0x25 ∈ t
  · have broken : unescape? .path t = none :=
      Option.not_isSome_iff_eq_none.mp fun read => plain ⟨percent, read⟩
    rw [resolved, broken, Option.getD_none]
  · rw [resolved, unescape?_of_plain percent, Option.getD_some]

end Colloquy.Web
