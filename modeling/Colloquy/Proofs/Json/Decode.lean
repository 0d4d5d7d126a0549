import Colloquy.Json.Decode
import Colloquy.Proofs.Text.Bytes
import Colloquy.Proofs.Text.Rune

/-! # Reading JSON back

Every text that is read from JSON is valid UTF-8. The literal that is written for a text is read back as the text made
valid, which is the text itself when it was valid before. 64-bit numbers are read back too. What every field of a
record keeps, the record keeps.
-/

namespace Colloquy.Json

theorem isUtf8_unescape (literal : Bytes) : (unescape literal).isUtf8 = true := Bytes.isUtf8_ofCodes _

/-! ## Texts -/

theorem unescapeFrom_append (more rest : Bytes) : unescapeFrom more.length (more ++ rest) = unescapeFrom 0 rest := by
  induction more with
  | nil => rfl
  | cons b more ih => exact ih

theorem unescapeFrom_plain {b : UInt8} (plain : b ≠ 0x5C) (rest : Bytes) :
    unescapeFrom 0 (b :: rest) =
      (Rune.decode b rest).code :: unescapeFrom ((Rune.decode b rest).width - 1) rest := by
  rw [unescapeFrom.eq_def]
  simp [plain]

theorem hexValue?_hexDigit {n : Nat} (digit : n < 16) : Bytes.hexValue? (hexDigit n) = some n := by
  have all : ∀ n : Fin 16, Bytes.hexValue? (hexDigit n) = some n.val := by decide
  exact all ⟨n, digit⟩

/-- An escape by number is read as one code point, if it is no half of a pair. -/
theorem unescapeFrom_unicodeEscape {code : Nat} (basic : code < 0xD800) (rest : Bytes) :
    unescapeFrom 0 (unicodeEscape code ++ rest) = code :: unescapeFrom 0 rest := by
  have value : hex4? (hexDigit (code / 4096 % 16) :: hexDigit (code / 256 % 16) :: hexDigit (code / 16 % 16) ::
      hexDigit (code % 16) :: rest) = some code := by
    have digits : code / 4096 % 16 * 4096 + code / 256 % 16 * 256 + code / 16 % 16 * 16 + code % 16 = code := by omega
    simp only [hex4?, hexValue?_hexDigit (Nat.mod_lt _ (by decide : 16 > 0)), bind, Option.bind_some, pure, digits]
  have notHigh : ¬ (decide (0xD800 ≤ code) && decide (code < 0xDC00)) = true := by
    simp only [Bool.and_eq_true, decide_eq_true_eq]
    omega
  have notLow : ¬ (decide (0xDC00 ≤ code) && decide (code < 0xE000)) = true := by
    simp only [Bool.and_eq_true, decide_eq_true_eq]
    omega
  simp only [unicodeEscape, List.cons_append, List.nil_append]
  rw [unescapeFrom]
  simp only [beq_self_eq_true, if_true, value, if_neg notHigh, if_neg notLow]
  rfl

theorem unescapeFrom_sequence {lead more code} (seq : Rune.Sequence lead more code) (plain : code ≠ 0x5C)
    (rest : Bytes) : unescapeFrom 0 (Rune.encode code ++ rest) = code :: unescapeFrom 0 rest := by
  have other : lead ≠ 0x5C := by
    rintro rfl
    have alone := Rune.decode_ascii (b := 0x5C) (by decide) (more ++ rest)
    rw [seq.decode_append] at alone
    exact plain (congrArg Rune.code alone)
  rw [seq.encode_eq, List.cons_append, unescapeFrom_plain other, seq.decode_append, Nat.add_sub_cancel,
    unescapeFrom_append]

theorem unescapeFrom_escapeRune {lead more code} (seq : Rune.Sequence lead more code) (width : Nat) (rest : Bytes) :
    unescapeFrom 0 (escapeRune ⟨code, width⟩ ++ rest) = code :: unescapeFrom 0 rest := by
  unfold escapeRune
  split
  case h_8 =>
    rename_i notQuote notBackslash _ _ _ _ _
    split
    · rename_i special
      have basic : code < 0xD800 := by
        simp only [Bool.or_eq_true, decide_eq_true_eq, beq_iff_eq] at special
        omega
      exact unescapeFrom_unicodeEscape basic rest
    · exact unescapeFrom_sequence seq notBackslash rest
  -- the seven code points with a short escape
  all_goals
    rename_i same
    simp only at same
    subst same
    rfl

theorem unescapeFrom_escape (t : Bytes) : unescapeFrom 0 (escape t) = t.codes := by
  induction t using Bytes.runeInduction with
  | nil => rfl
  | cons b rest ih =>
      obtain ⟨lead, more, seq⟩ := Rune.exists_sequence_code b rest
      rw [escape] at ih ⊢
      rw [Bytes.codes, Bytes.runes_cons, List.flatMap_cons, List.map_cons, unescapeFrom_escapeRune seq, ih, Bytes.codes]

/-- The literal that is written for a text is read back as the text, with the replacement character for each byte that
    is no UTF-8. -/
theorem unescape_escape (t : Bytes) : unescape (escape t) = t.sanitize := by
  rw [unescape, unescapeFrom_escape, Bytes.sanitize]

theorem isUtf8_decodeText {current t : Bytes} {j : Json} (before : current.isUtf8 = true)
    (read : decodeText current j = some t) : t.isUtf8 = true := by
  cases j with
  | null =>
      obtain rfl := Option.some.inj read
      exact before
  | string literal =>
      obtain rfl := Option.some.inj read
      exact isUtf8_unescape literal
  | bool | number | array | object => simp [decodeText] at read

/-! ## Numbers -/

theorem integer?_ofInt (n : Int) : integer? (Bytes.ofInt n) = some n := by
  cases n with
  | ofNat n =>
      -- a number without a sign starts with a digit
      have plain : ∀ digits, Bytes.ofNat n ≠ 0x2D :: digits := by
        intro digits same
        have digit := Bytes.isDigit_of_mem_ofNat (n := n) (b := 0x2D) (by rw [same]; exact List.mem_cons_self)
        exact absurd digit (by decide)
      rw [Bytes.ofInt, integer?.eq_2 _ fun digits same => plain digits same, Bytes.toNat?_ofNat]
      rfl
  | negSucc n =>
      rw [Bytes.ofInt, integer?, Bytes.toNat?_ofNat]
      rfl

theorem decodeInt64_ofInt (current n : Int64) : decodeInt64 current (.ofInt n.toInt) = some n := by
  have fits : fitsSigned n.toInt = true := by
    have low := n.le_toInt
    have high := n.toInt_lt
    have limit : (signedLimit : Int) = 2 ^ 63 := rfl
    simp only [fitsSigned, Bool.and_eq_true, decide_eq_true_eq]
    omega
  simp [decodeInt64, decodeInt, ofInt, integer?_ofInt, fits]

/-! ## Records -/

section

variable {α : Type} {fields : List (String × (α → Json → Option α))} {current : α} {name : String} {j : Json}
  {members : List (String × Json)}

/-- The first field that a member names decodes it, and the others are decoded over what that leaves. -/
theorem decodeRecord_cons {i : Nat} {field : String} {decode : α → Json → Option α}
    (named : fields.findIdx? (fun f => isField (escape (utf8 name)) f.1) = some i)
    (found : fields[i]? = some (field, decode)) :
    decodeRecord fields current (obj ((name, j) :: members)) =
      (decode current j).bind fun next => decodeRecord fields next (obj members) := by
  have first : fields.find? (fun f => isField (escape (utf8 name)) f.1) = some (field, decode) := by
    rw [List.find?_eq_bind_findIdx?_getElem?, named, Option.bind_some, found]
  simp only [decodeRecord, obj, decodeObject, List.map_cons, List.foldlM_cons, first]
  rfl

/-- A member that names no field is passed over. -/
theorem decodeRecord_cons_unknown (unknown : ∀ f ∈ fields, isField (escape (utf8 name)) f.1 = false) :
    decodeRecord fields current (obj ((name, j) :: members)) = decodeRecord fields current (obj members) := by
  have none : fields.find? (fun f => isField (escape (utf8 name)) f.1) = none :=
    List.find?_eq_none.mpr fun f member => by rw [unknown f member]; decide
  simp only [decodeRecord, obj, decodeObject, List.map_cons, List.foldlM_cons, none]
  rfl

end

theorem foldlM_keeps {α β : Type} {P : α → Prop} {step : α → β → Option α}
    (keeps : ∀ a b a', P a → step a b = some a' → P a') {bs : List β} {a a' : α} (before : P a)
    (ran : bs.foldlM step a = some a') : P a' := by
  induction bs generalizing a with
  | nil =>
      obtain rfl := Option.some.inj ran
      exact before
  | cons b bs ih =>
      rw [List.foldlM_cons] at ran
      obtain ⟨mid, first, rest⟩ := Option.bind_eq_some_iff.mp ran
      exact ih (keeps a b mid before first) rest

theorem decodeRecord_keeps {α : Type} {P : α → Prop} {fields : List (String × (α → Json → Option α))}
    (keeps : ∀ f ∈ fields, ∀ a j a', P a → f.2 a j = some a' → P a') {a a' : α} {j : Json} (before : P a)
    (read : decodeRecord fields a j = some a') : P a' := by
  cases j with
  | null =>
      obtain rfl := Option.some.inj read
      exact before
  | object members =>
      refine foldlM_keeps (fun a m a' before step => ?_) before read
      dsimp only at step
      split at step
      · rename_i f found
        exact keeps f (List.mem_of_find?_eq_some found) a m.2 a' before step
      · obtain rfl := Option.some.inj step
        exact before
  | bool | number | string | array => simp [decodeRecord, decodeObject] at read

end Colloquy.Json
