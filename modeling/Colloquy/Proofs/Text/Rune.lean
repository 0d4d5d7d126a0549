import Colloquy.Text.Rune

/-! # Well-formed sequences

`Sequence lead more code` says which bytes may follow a lead byte and which code point they spell
together. `Rune.decode` reads exactly these: what stands behind a sequence never changes the answer, and
without a sequence the lead byte is a rune of its own. Everything that later modules need about decoding
follows from these two facts, so they never open `decode`.
-/

namespace Colloquy

namespace Rune

/-- The bytes behind the lead of a well-formed sequence, and the code point that it spells. -/
inductive Sequence (lead : UInt8) : Bytes → Nat → Prop where
  | one : lead < 0x80 → Sequence lead [] lead.toNat
  | two {b₁ : UInt8} : 0xC2 ≤ lead → lead ≤ 0xDF → isContinuation b₁ = true →
      Sequence lead [b₁] ((lead.toNat - 0xC0) * 64 + payload b₁)
  | three {b₁ b₂ : UInt8} : 0xE0 ≤ lead → lead ≤ 0xEF → isSecondOfThree lead b₁ = true →
      isContinuation b₂ = true →
      Sequence lead [b₁, b₂] ((lead.toNat - 0xE0) * 4096 + payload b₁ * 64 + payload b₂)
  | four {b₁ b₂ b₃ : UInt8} : 0xF0 ≤ lead → lead ≤ 0xF4 → isSecondOfFour lead b₁ = true →
      isContinuation b₂ = true → isContinuation b₃ = true →
      Sequence lead [b₁, b₂, b₃]
        ((lead.toNat - 0xF0) * 262144 + payload b₁ * 4096 + payload b₂ * 64 + payload b₃)

theorem isContinuation_bounds {b : UInt8} (h : isContinuation b = true) :
    0x80 ≤ b.toNat ∧ b.toNat ≤ 0xBF := by
  simp only [isContinuation, Bool.and_eq_true, decide_eq_true_eq, UInt8.le_iff_toNat_le] at h
  exact h

theorem isSecondOfThree_bounds {lead b : UInt8} (h : isSecondOfThree lead b = true) :
    0x80 ≤ b.toNat ∧ b.toNat ≤ 0xBF ∧ (lead.toNat = 0xE0 → 0xA0 ≤ b.toNat) ∧
      (lead.toNat = 0xED → b.toNat ≤ 0x9F) := by
  unfold isSecondOfThree at h
  simp only [isContinuation, beq_iff_eq, ← UInt8.toNat_inj] at h
  split at h
  all_goals try split at h
  all_goals
    simp only [Bool.and_eq_true, decide_eq_true_eq, UInt8.le_iff_toNat_le, UInt8.reduceToNat] at *
    omega

theorem isSecondOfFour_bounds {lead b : UInt8} (h : isSecondOfFour lead b = true) :
    0x80 ≤ b.toNat ∧ b.toNat ≤ 0xBF ∧ (lead.toNat = 0xF0 → 0x90 ≤ b.toNat) ∧
      (lead.toNat = 0xF4 → b.toNat ≤ 0x8F) := by
  unfold isSecondOfFour at h
  simp only [isContinuation, beq_iff_eq, ← UInt8.toNat_inj] at h
  split at h
  all_goals try split at h
  all_goals
    simp only [Bool.and_eq_true, decide_eq_true_eq, UInt8.le_iff_toNat_le, UInt8.reduceToNat] at *
    omega

namespace Sequence

theorem continued {lead more code} (h : Sequence lead more code) :
    ∀ b ∈ more, 0x80 ≤ b.toNat ∧ b.toNat ≤ 0xBF := by
  cases h with
  | one => simp
  | two _ _ h₁ =>
      intro b member
      obtain rfl := List.mem_singleton.mp member
      exact isContinuation_bounds h₁
  | three _ _ h₁ h₂ =>
      have second := isSecondOfThree_bounds h₁
      have third := isContinuation_bounds h₂
      simp only [List.mem_cons, List.not_mem_nil, or_false, forall_eq_or_imp, forall_eq]
      exact ⟨⟨second.1, second.2.1⟩, third⟩
  | four _ _ h₁ h₂ h₃ =>
      have second := isSecondOfFour_bounds h₁
      have third := isContinuation_bounds h₂
      have fourth := isContinuation_bounds h₃
      simp only [List.mem_cons, List.not_mem_nil, or_false, forall_eq_or_imp, forall_eq]
      exact ⟨⟨second.1, second.2.1⟩, third, fourth⟩

/-- A sequence is read whatever stands behind it. -/
theorem decode_append {lead more code} (h : Sequence lead more code) (tail : Bytes) :
    decode lead (more ++ tail) = ⟨code, more.length + 1⟩ := by
  cases h with
  | one hl => simp [decode, hl]
  | two lo hi h₁ =>
      have notOne : ¬ lead < 0x80 := by
        simp only [UInt8.le_iff_toNat_le, UInt8.lt_iff_toNat_lt, UInt8.reduceToNat] at *; omega
      simp [decode, notOne, lo, hi, h₁]
  | three lo hi h₁ h₂ =>
      have notOne : ¬ lead < 0x80 := by
        simp only [UInt8.le_iff_toNat_le, UInt8.lt_iff_toNat_lt, UInt8.reduceToNat] at *; omega
      have notTwo : ¬ lead ≤ 0xDF := by
        simp only [UInt8.le_iff_toNat_le, UInt8.lt_iff_toNat_lt, UInt8.reduceToNat] at *; omega
      simp [decode, notOne, notTwo, lo, hi, h₁, h₂]
  | four lo hi h₁ h₂ h₃ =>
      have notOne : ¬ lead < 0x80 := by
        simp only [UInt8.le_iff_toNat_le, UInt8.lt_iff_toNat_lt, UInt8.reduceToNat] at *; omega
      have notTwo : ¬ lead ≤ 0xDF := by
        simp only [UInt8.le_iff_toNat_le, UInt8.lt_iff_toNat_lt, UInt8.reduceToNat] at *; omega
      have notThree : ¬ lead ≤ 0xEF := by
        simp only [UInt8.le_iff_toNat_le, UInt8.lt_iff_toNat_lt, UInt8.reduceToNat] at *; omega
      simp [decode, notOne, notTwo, notThree, lo, hi, h₁, h₂, h₃]

end Sequence

/-- Decoding either reads a sequence or finds none and takes the lead byte alone. -/
theorem sequence_or_invalid (lead : UInt8) (rest : Bytes) :
    (∃ more tail code, rest = more ++ tail ∧ Sequence lead more code) ∨ decode lead rest = invalid := by
  unfold decode
  split
  · rename_i hl
    exact .inl ⟨[], rest, _, rfl, .one hl⟩
  split
  · rename_i hl
    simp only [Bool.and_eq_true, decide_eq_true_eq] at hl
    split
    · split
      · rename_i h₁
        exact .inl ⟨_, _, _, rfl, .two hl.1 hl.2 h₁⟩
      · exact .inr rfl
    · exact .inr rfl
  split
  · rename_i hl
    simp only [Bool.and_eq_true, decide_eq_true_eq] at hl
    split
    · split
      · rename_i h₁
        simp only [Bool.and_eq_true] at h₁
        exact .inl ⟨[_, _], _, _, rfl, .three hl.1 hl.2 h₁.1 h₁.2⟩
      · exact .inr rfl
    · exact .inr rfl
  split
  · rename_i hl
    simp only [Bool.and_eq_true, decide_eq_true_eq] at hl
    split
    · split
      · rename_i h₁
        simp only [Bool.and_eq_true] at h₁
        exact .inl ⟨[_, _, _], _, _, rfl, .four hl.1 hl.2 h₁.1.1 h₁.1.2 h₁.2⟩
      · exact .inr rfl
    · exact .inr rfl
  · exact .inr rfl

namespace Sequence

/-- A sequence spells a scalar value, and its length tells ASCII and the supplementary planes apart. -/
theorem scalar {lead more code} (h : Sequence lead more code) :
    (code < 0xD800 ∨ 0xDFFF < code) ∧ code ≤ 0x10FFFF ∧ (code < 0x80 ↔ more = []) ∧
      (0xFFFF < code ↔ more.length = 3) := by
  cases h with
  | one hl =>
      simp only [UInt8.lt_iff_toNat_lt, UInt8.reduceToNat] at hl
      simp only [List.length_nil, iff_true]
      omega
  | two lo hi h₁ =>
      have second := isContinuation_bounds h₁
      simp only [UInt8.le_iff_toNat_le, UInt8.reduceToNat] at lo hi
      unfold payload
      simp only [List.cons_ne_nil, iff_false, List.length_cons, List.length_nil]
      omega
  | three lo hi h₁ h₂ =>
      have second := isSecondOfThree_bounds h₁
      have third := isContinuation_bounds h₂
      simp only [UInt8.le_iff_toNat_le, UInt8.reduceToNat] at lo hi
      unfold payload
      simp only [List.cons_ne_nil, iff_false, List.length_cons, List.length_nil]
      omega
  | four lo hi h₁ h₂ h₃ =>
      have second := isSecondOfFour_bounds h₁
      have third := isContinuation_bounds h₂
      have fourth := isContinuation_bounds h₃
      simp only [UInt8.le_iff_toNat_le, UInt8.reduceToNat] at lo hi
      unfold payload
      simp only [List.cons_ne_nil, iff_false, iff_true, List.length_cons, List.length_nil]
      omega

theorem lead_eq {lead more code} (h : Sequence lead more code) (ascii : code < 0x80) :
    lead.toNat = code := by
  cases h with
  | one => rfl
  | two lo hi h₁ => exact absurd ((scalar (.two lo hi h₁)).2.2.1.mp ascii) (by simp)
  | three lo hi h₁ h₂ => exact absurd ((scalar (.three lo hi h₁ h₂)).2.2.1.mp ascii) (by simp)
  | four lo hi h₁ h₂ h₃ => exact absurd ((scalar (.four lo hi h₁ h₂ h₃)).2.2.1.mp ascii) (by simp)

theorem not_isInvalid {lead more code} (h : Sequence lead more code) :
    isInvalid ⟨code, more.length + 1⟩ = false := by
  have ascii := h.scalar.2.2.1
  simp only [isInvalid, Bool.and_eq_false_iff, beq_eq_false_iff_ne, ne_eq, Nat.add_eq_right,
    List.length_eq_zero_iff]
  by_cases empty : more = []
  · exact .inl (by have := ascii.mpr empty; simp only [replacement]; omega)
  · exact .inr empty

end Sequence

/-- A byte that continues no sequence. Line feeds are such bytes, and so are all of ASCII. -/
def IsBreak (b : UInt8) : Prop := b.toNat < 0x80

theorem width_pos (lead : UInt8) (rest : Bytes) : 0 < (decode lead rest).width := by
  obtain ⟨more, tail, code, rfl, seq⟩ | alone := sequence_or_invalid lead rest
  · simp [seq.decode_append tail]
  · simp [alone, invalid]

theorem width_le (lead : UInt8) (rest : Bytes) : (decode lead rest).width ≤ rest.length + 1 := by
  obtain ⟨more, tail, code, rfl, seq⟩ | alone := sequence_or_invalid lead rest
  · simp [seq.decode_append tail]
  · simp [alone, invalid]

theorem width_le_four (lead : UInt8) (rest : Bytes) : (decode lead rest).width ≤ 4 := by
  obtain ⟨more, tail, code, rfl, seq⟩ | alone := sequence_or_invalid lead rest
  · rw [seq.decode_append tail]
    cases seq <;> simp
  · simp [alone, invalid]

theorem units_pos (r : Rune) : 0 < r.units := by
  simp only [units]
  split <;> omega

theorem decode_ascii {b : UInt8} (ascii : b < 0x80) (rest : Bytes) : decode b rest = ⟨b.toNat, 1⟩ :=
  (Sequence.one ascii).decode_append rest

/-- What stands behind a rune does not matter when its first byte continues no sequence. -/
theorem decode_append_of_isBreak (lead : UInt8) (rest : Bytes) {tail : Bytes}
    (fresh : ∀ b ∈ tail.head?, IsBreak b) : decode lead (rest ++ tail) = decode lead rest := by
  obtain ⟨more, behind, code, rfl, seq⟩ | alone := sequence_or_invalid lead rest
  · rw [List.append_assoc, seq.decode_append, seq.decode_append]
  obtain ⟨more, behind, code, split, seq⟩ | alone' := sequence_or_invalid lead (rest ++ tail)
  · -- the sequence cannot reach into `tail`, so it was there before
    obtain ⟨mid, rfl, rfl⟩ | ⟨mid, rfl, rfl⟩ := List.append_eq_append_iff.mp split
    · cases mid with
      | nil => simpa using (seq.decode_append behind).trans (seq.decode_append []).symm
      | cons b mid =>
          have cont := seq.continued b (by simp)
          have brk := fresh b (by simp)
          simp only [IsBreak] at brk
          omega
    · rw [List.append_assoc, seq.decode_append, seq.decode_append]
  · rw [alone, alone']

theorem decode_take (lead : UInt8) (rest : Bytes) {k : Nat}
    (inside : (decode lead rest).width ≤ k + 1) : decode lead (rest.take k) = decode lead rest := by
  obtain ⟨more, tail, code, rfl, seq⟩ | alone := sequence_or_invalid lead rest
  · rw [seq.decode_append tail] at inside ⊢
    have short : more.length ≤ k := by simpa using inside
    rw [List.take_append, List.take_of_length_le short, seq.decode_append]
  obtain ⟨more, tail, code, split, seq⟩ | alone' := sequence_or_invalid lead (rest.take k)
  · have whole : rest = more ++ (tail ++ rest.drop k) := by
      rw [← List.append_assoc, ← split, List.take_append_drop]
    rw [split, whole, seq.decode_append, seq.decode_append]
  · rw [alone, alone']

theorem exists_sequence {lead : UInt8} {rest : Bytes} (h : (decode lead rest).isInvalid = false) :
    ∃ more tail code, rest = more ++ tail ∧ Sequence lead more code := by
  obtain found | alone := sequence_or_invalid lead rest
  · exact found
  · rw [alone] at h
    exact absurd h (by decide)

end Rune

namespace Bytes

/-- Induction along the runes of a text. -/
@[elab_as_elim]
theorem runeInduction {motive : Bytes → Prop} (nil : motive [])
    (cons : ∀ b rest, motive ((b :: rest).drop (Rune.decode b rest).width) → motive (b :: rest))
    (t : Bytes) : motive t := by
  match t with
  | [] => exact nil
  | b :: rest =>
      exact cons b rest (runeInduction nil cons _)
termination_by t.length
decreasing_by
  have := Rune.width_pos b rest
  simp only [List.length_drop, List.length_cons]
  omega

theorem runesFrom_eq_drop (skip : Nat) (t : Bytes) : runesFrom skip t = runes (t.drop skip) := by
  induction t generalizing skip with
  | nil => cases skip <;> simp [runes, runesFrom]
  | cons b rest ih =>
      cases skip with
      | zero => rfl
      | succ skip => simpa only [runesFrom, List.drop_succ_cons] using ih skip

theorem runes_cons (b : UInt8) (rest : Bytes) :
    runes (b :: rest) =
      Rune.decode b rest :: runes ((b :: rest).drop (Rune.decode b rest).width) := by
  have pos := Rune.width_pos b rest
  obtain ⟨w, hw⟩ : ∃ w, (Rune.decode b rest).width = w + 1 := ⟨_, (Nat.sub_add_cancel pos).symm⟩
  rw [hw, List.drop_succ_cons, ← runesFrom_eq_drop]
  simp only [runes, runesFrom, hw, Nat.add_sub_cancel]

theorem widthOf_take_runes_le (k : Nat) (t : Bytes) : widthOf ((runes t).take k) ≤ t.length := by
  induction t using runeInduction generalizing k with
  | nil => simp [runes, runesFrom, widthOf, total]
  | cons b rest ih =>
      cases k with
      | zero => exact Nat.zero_le _
      | succ k =>
          have behind := ih k
          have first := Rune.width_le b rest
          rw [List.length_drop, List.length_cons] at behind
          rw [runes_cons, List.take_succ_cons, widthOf, List.map_cons, total, List.length_cons]
          rw [widthOf] at behind
          omega

/-- A text made of well-formed sequences, with the code points that it spells. -/
inductive Spells : Bytes → List Nat → Prop where
  | nil : Spells [] []
  | cons {lead more code tail codes} : Rune.Sequence lead more code → Spells tail codes →
      Spells (lead :: (more ++ tail)) (code :: codes)

namespace Spells

theorem append {t u : Bytes} {cs ds : List Nat} (ht : Spells t cs) (hu : Spells u ds) :
    Spells (t ++ u) (cs ++ ds) := by
  induction ht with
  | nil => exact hu
  | cons seq _ ih =>
      rw [List.cons_append, List.append_assoc]
      exact .cons seq ih

theorem runes_cons {lead more code tail} (seq : Rune.Sequence lead more code) :
    runes (lead :: (more ++ tail)) = ⟨code, more.length + 1⟩ :: runes tail := by
  rw [Bytes.runes_cons, seq.decode_append tail, List.drop_succ_cons, List.drop_left]

theorem codes_eq {t : Bytes} {cs : List Nat} (h : Spells t cs) : codes t = cs := by
  induction h with
  | nil => rfl
  | cons seq _ ih =>
      rw [codes] at ih
      rw [codes, runes_cons seq, List.map_cons, ih]

/-- A text can be split behind any of its code points. -/
theorem split {t : Bytes} {cs : List Nat} (h : Spells t cs) (n : Nat) :
    ∃ front rest, t = front ++ rest ∧ Spells front (cs.take n) ∧ Spells rest (cs.drop n) := by
  induction h generalizing n with
  | nil => exact ⟨[], [], rfl, by rw [List.take_nil]; exact .nil, by rw [List.drop_nil]; exact .nil⟩
  | @cons lead more code tail codes seq behind ih =>
      cases n with
      | zero => exact ⟨[], lead :: (more ++ tail), rfl, .nil, .cons seq behind⟩
      | succ n =>
          obtain ⟨front, rest, rfl, first, second⟩ := ih n
          exact ⟨lead :: (more ++ front), rest, by simp, .cons seq first, second⟩

theorem isUtf8 {t : Bytes} {cs : List Nat} (h : Spells t cs) : isUtf8 t = true := by
  induction h with
  | nil => rfl
  | cons seq _ ih =>
      rw [Bytes.isUtf8, runes_cons seq, List.all_cons, seq.not_isInvalid, Bool.not_false, Bool.true_and]
      exact ih

end Spells

/-- Valid UTF-8 is what well-formed sequences make up. -/
theorem spells_codes {t : Bytes} (valid : isUtf8 t = true) : Spells t (codes t) := by
  induction t using runeInduction with
  | nil => exact .nil
  | cons b rest ih =>
      rw [isUtf8, runes_cons, List.all_cons, Bool.and_eq_true, Bool.not_eq_true'] at valid
      obtain ⟨more, tail, code, rfl, seq⟩ := Rune.exists_sequence valid.1
      rw [seq.decode_append, List.drop_succ_cons, List.drop_left] at ih valid
      rw [codes, Spells.runes_cons seq]
      exact .cons seq (ih valid.2)

end Bytes

/-! ## Writing code points

`Rune.encode` writes well-formed sequences and nothing else, and of the sequence that spells a code point it writes
the very bytes. So what is made of code points is valid UTF-8, and valid UTF-8 is made of its own.
-/

namespace Rune

theorem toNat_toUInt8 {n : Nat} (small : n < 256) : n.toUInt8.toNat = n := by
  rw [Nat.toUInt8, UInt8.toNat_ofNat']
  exact Nat.mod_eq_of_lt small

theorem toUInt8_eq {n : Nat} {b : UInt8} (same : n = b.toNat) : n.toUInt8 = b := by
  rw [same]
  exact UInt8.ofNat_toNat

theorem isContinuation_toUInt8 {n : Nat} (low : 0x80 ≤ n) (high : n ≤ 0xBF) : isContinuation n.toUInt8 = true := by
  simp only [isContinuation, Bool.and_eq_true, decide_eq_true_eq, UInt8.le_iff_toNat_le,
    toNat_toUInt8 (Nat.lt_of_le_of_lt high (by decide)), UInt8.reduceToNat]
  exact ⟨low, high⟩

/-- The sequence that spells a code point is what encoding writes. -/
theorem Sequence.encode_eq {lead more code} (h : Sequence lead more code) : encode code = lead :: more := by
  cases h with
  | one hl =>
      simp only [UInt8.lt_iff_toNat_lt, UInt8.reduceToNat] at hl
      simp [encode, hl]
  | @two b₁ lo hi h₁ =>
      have second := isContinuation_bounds h₁
      simp only [UInt8.le_iff_toNat_le, UInt8.reduceToNat] at lo hi
      unfold payload
      generalize hc : (lead.toNat - 0xC0) * 64 + (b₁.toNat - 0x80) = code
      have notOne : ¬ code < 0x80 := by omega
      have two : code < 0x800 := by omega
      rw [encode, if_neg notOne, if_pos two, toUInt8_eq (b := lead) (by omega), toUInt8_eq (b := b₁) (by omega)]
  | @three b₁ b₂ lo hi h₁ h₂ =>
      have second := isSecondOfThree_bounds h₁
      have third := isContinuation_bounds h₂
      simp only [UInt8.le_iff_toNat_le, UInt8.reduceToNat] at lo hi
      unfold payload
      generalize hc : (lead.toNat - 0xE0) * 4096 + (b₁.toNat - 0x80) * 64 + (b₂.toNat - 0x80) = code
      have notOne : ¬ code < 0x80 := by omega
      have notTwo : ¬ code < 0x800 := by omega
      have scalar : ¬ ((0xD800 ≤ code && code ≤ 0xDFFF) || 0x10FFFF < code) = true := by
        simp only [Bool.or_eq_true, Bool.and_eq_true, decide_eq_true_eq]
        omega
      have three : code < 0x10000 := by omega
      rw [encode, if_neg notOne, if_neg notTwo, if_neg scalar, if_pos three, toUInt8_eq (b := lead) (by omega),
        toUInt8_eq (b := b₁) (by omega), toUInt8_eq (b := b₂) (by omega)]
  | @four b₁ b₂ b₃ lo hi h₁ h₂ h₃ =>
      have second := isSecondOfFour_bounds h₁
      have third := isContinuation_bounds h₂
      have fourth := isContinuation_bounds h₃
      simp only [UInt8.le_iff_toNat_le, UInt8.reduceToNat] at lo hi
      unfold payload
      generalize hc : (lead.toNat - 0xF0) * 262144 + (b₁.toNat - 0x80) * 4096 + (b₂.toNat - 0x80) * 64 +
        (b₃.toNat - 0x80) = code
      have notOne : ¬ code < 0x80 := by omega
      have notTwo : ¬ code < 0x800 := by omega
      have scalar : ¬ ((0xD800 ≤ code && code ≤ 0xDFFF) || 0x10FFFF < code) = true := by
        simp only [Bool.or_eq_true, Bool.and_eq_true, decide_eq_true_eq]
        omega
      have notThree : ¬ code < 0x10000 := by omega
      rw [encode, if_neg notOne, if_neg notTwo, if_neg scalar, if_neg notThree, toUInt8_eq (b := lead) (by omega),
        toUInt8_eq (b := b₁) (by omega), toUInt8_eq (b := b₂) (by omega), toUInt8_eq (b := b₃) (by omega)]

/-- Whatever number is encoded, a sequence is written. -/
theorem exists_sequence_encode (code : Nat) :
    ∃ lead more spelled, Sequence lead more spelled ∧ encode code = lead :: more := by
  unfold encode
  split
  · rename_i one
    refine ⟨_, _, _, .one ?_, rfl⟩
    simp only [UInt8.lt_iff_toNat_lt, toNat_toUInt8 (by omega : code < 256), UInt8.reduceToNat]
    exact one
  split
  · rename_i notOne two
    have lead := toNat_toUInt8 (by omega : 0xC0 + code / 64 < 256)
    refine ⟨_, _, _, .two ?_ ?_ (isContinuation_toUInt8 (by omega) (by omega)), rfl⟩
    all_goals
      simp only [UInt8.le_iff_toNat_le, lead, UInt8.reduceToNat]
      omega
  split
  · exact ⟨0xEF, [0xBF, 0xBD], _, .three (by decide) (by decide) (by decide) (by decide), rfl⟩
  rename_i notOne notTwo scalar
  simp only [Bool.or_eq_true, Bool.and_eq_true, decide_eq_true_eq] at scalar
  split
  · rename_i three
    have lead := toNat_toUInt8 (by omega : 0xE0 + code / 4096 < 256)
    have second := toNat_toUInt8 (by omega : 0x80 + code / 64 % 64 < 256)
    refine ⟨_, [_, _], _, .three ?_ ?_ ?_ (isContinuation_toUInt8 (by omega) (by omega)), rfl⟩
    · simp only [UInt8.le_iff_toNat_le, lead, UInt8.reduceToNat]
      omega
    · simp only [UInt8.le_iff_toNat_le, lead, UInt8.reduceToNat]
      omega
    · -- the lead bytes with a narrower second byte are those of overlong forms and of surrogates
      simp only [isSecondOfThree, isContinuation, beq_iff_eq, ← UInt8.toNat_inj, UInt8.le_iff_toNat_le, lead, second,
        UInt8.reduceToNat]
      split
      · simp only [Bool.and_eq_true, decide_eq_true_eq]
        omega
      split
      all_goals
        simp only [Bool.and_eq_true, decide_eq_true_eq]
        omega
  · rename_i notThree
    have lead := toNat_toUInt8 (by omega : 0xF0 + code / 262144 < 256)
    have second := toNat_toUInt8 (by omega : 0x80 + code / 4096 % 64 < 256)
    refine ⟨_, [_, _, _], _, .four ?_ ?_ ?_ (isContinuation_toUInt8 (by omega) (by omega))
      (isContinuation_toUInt8 (by omega) (by omega)), rfl⟩
    · simp only [UInt8.le_iff_toNat_le, lead, UInt8.reduceToNat]
      omega
    · simp only [UInt8.le_iff_toNat_le, lead, UInt8.reduceToNat]
      omega
    · simp only [isSecondOfFour, isContinuation, beq_iff_eq, ← UInt8.toNat_inj, UInt8.le_iff_toNat_le, lead, second,
        UInt8.reduceToNat]
      split
      · simp only [Bool.and_eq_true, decide_eq_true_eq]
        omega
      split
      all_goals
        simp only [Bool.and_eq_true, decide_eq_true_eq]
        omega

/-- Whatever is read, there is a sequence that spells it: an undecodable byte is read as the replacement character. -/
theorem exists_sequence_code (b : UInt8) (rest : Bytes) :
    ∃ lead more, Sequence lead more (decode b rest).code := by
  obtain ⟨more, tail, code, rfl, seq⟩ | alone := sequence_or_invalid b rest
  · exact ⟨b, more, by rw [seq.decode_append]; exact seq⟩
  · rw [alone]
    exact ⟨0xEF, [0xBF, 0xBD], .three (by decide) (by decide) (by decide) (by decide)⟩

end Rune

namespace Bytes

theorem exists_spells_ofCodes (codes : List Nat) : ∃ spelled, Spells (ofCodes codes) spelled := by
  induction codes with
  | nil => exact ⟨[], .nil⟩
  | cons code codes ih =>
      obtain ⟨spelled, behind⟩ := ih
      obtain ⟨lead, more, first, seq, written⟩ := Rune.exists_sequence_encode code
      refine ⟨first :: spelled, ?_⟩
      rw [ofCodes, List.flatMap_cons, written, List.cons_append]
      exact .cons seq behind

theorem isUtf8_ofCodes (codes : List Nat) : isUtf8 (ofCodes codes) = true := by
  obtain ⟨spelled, spells⟩ := exists_spells_ofCodes codes
  exact spells.isUtf8

theorem Spells.ofCodes_eq {t : Bytes} {cs : List Nat} (h : Spells t cs) : ofCodes cs = t := by
  induction h with
  | nil => rfl
  | cons seq _ ih =>
      rw [ofCodes] at ih ⊢
      rw [List.flatMap_cons, seq.encode_eq, ih]
      rfl

theorem sanitize_of_isUtf8 {t : Bytes} (valid : t.isUtf8 = true) : t.sanitize = t := (spells_codes valid).ofCodes_eq

theorem isUtf8_of_ascii {t : Bytes} (ascii : ∀ b ∈ t, b < 0x80) : isUtf8 t = true := by
  have spells : Spells t (t.map UInt8.toNat) := by
    induction t with
    | nil => exact .nil
    | cons b rest ih =>
        exact .cons (.one (ascii b List.mem_cons_self)) (ih fun c member => ascii c (List.mem_cons_of_mem b member))
  exact spells.isUtf8

end Bytes

end Colloquy
