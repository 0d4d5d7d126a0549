import Colloquy.Proofs.Text.Bytes
import Mathlib.Data.List.TakeWhile

/-! # Ends of lines

The same text can be written with either end of line: a line feed, or a carriage return and a line feed. Rewriting a
text with the longer one moves each offset by the line feeds in front of it, and takes stretches to stretches.
-/

namespace Colloquy.Bytes

/-- The text with a carriage return in front of each line feed. -/
def crlf (t : Bytes) : Bytes := t.flatMap fun b => if b = lf then [cr, lf] else [b]

/-- Where the offset `o` of a text lies when a carriage return is put in front of each line feed. -/
def reach (t : Bytes) (o : Nat) : Nat := o + (t.take o).count lf

section

variable {t u : Bytes} {b : UInt8} {a k n : Nat}

theorem crlf_nil : crlf [] = [] := rfl

theorem crlf_lf (t : Bytes) : crlf (lf :: t) = cr :: lf :: crlf t := rfl

theorem crlf_cons (other : b ≠ lf) (t : Bytes) : crlf (b :: t) = b :: crlf t := by
  rw [crlf, List.flatMap_cons, if_neg other]
  rfl

theorem crlf_append (t u : Bytes) : crlf (t ++ u) = crlf t ++ crlf u := List.flatMap_append

theorem crlf_eq_self (free : lf ∉ t) : crlf t = t := by
  induction t with
  | nil => rfl
  | cons b t ih =>
      obtain ⟨other, free⟩ : lf ≠ b ∧ lf ∉ t := by simpa using free
      rw [crlf_cons other.symm, ih free]

theorem length_crlf (t : Bytes) : (crlf t).length = reach t t.length := by
  rw [reach, List.take_length]
  induction t with
  | nil => rfl
  | cons b t ih =>
      by_cases same : b = lf
      · subst same
        rw [crlf_lf, List.count_cons_self]
        simp only [List.length_cons]
        omega
      · rw [crlf_cons same, List.count_cons_of_ne same]
        simp only [List.length_cons]
        omega

/-! ## Offsets -/

theorem reach_zero (t : Bytes) : reach t 0 = 0 := rfl

theorem reach_add (t : Bytes) (a k : Nat) : reach t (a + k) = reach t a + reach (t.drop a) k := by
  simp only [reach, List.take_add, List.count_append]
  omega

theorem reach_append (t u : Bytes) (k : Nat) : reach (t ++ u) (t.length + k) = (crlf t).length + reach u k := by
  rw [reach_add, List.drop_left, length_crlf]
  congr 1
  rw [reach, reach, List.take_left, List.take_length]

theorem reach_append_free (free : lf ∉ t) (u : Bytes) (k : Nat) :
    reach (t ++ u) (t.length + k) = t.length + reach u k := by
  rw [reach_append, crlf_eq_self free]

theorem reach_of_free (free : lf ∉ t.take n) : reach t n = n := by
  rw [reach, List.count_eq_zero.mpr free, Nat.add_zero]

theorem reach_lf (t : Bytes) (k : Nat) : reach (lf :: t) (k + 1) = reach t k + 2 := by
  simp only [reach, List.take_succ_cons, List.count_cons_self]
  omega

theorem reach_cons (other : b ≠ lf) (t : Bytes) (k : Nat) : reach (b :: t) (k + 1) = reach t k + 1 := by
  simp only [reach, List.take_succ_cons, List.count_cons_of_ne other]
  omega

theorem reach_succ (here : t[n]? = some b) (other : b ≠ lf) : reach t (n + 1) = reach t n + 1 := by
  obtain ⟨inside, same⟩ := List.getElem?_eq_some_iff.mp here
  rw [reach_add, List.drop_eq_getElem_cons inside, same, reach_cons other, reach_zero]

theorem le_reach (t : Bytes) (n : Nat) : n ≤ reach t n := Nat.le_add_right _ _

theorem reach_lt (t : Bytes) {a k : Nat} (lt : a < k) : reach t a < reach t k := by
  obtain ⟨d, rfl⟩ := Nat.exists_eq_add_of_lt lt
  have := le_reach (t.drop a) (d + 1)
  rw [Nat.add_assoc, reach_add]
  omega

theorem reach_le (t : Bytes) {a k : Nat} (le : a ≤ k) : reach t a ≤ reach t k := by
  obtain rfl | lt := Nat.eq_or_lt_of_le le
  · exact Nat.le_refl _
  · exact Nat.le_of_lt (reach_lt t lt)

theorem reach_inj (t : Bytes) {a k : Nat} : reach t a = reach t k ↔ a = k := by
  refine ⟨fun same => ?_, fun same => same ▸ rfl⟩
  obtain lt | same' | lt := Nat.lt_trichotomy a k
  · exact absurd same (Nat.ne_of_lt (reach_lt t lt))
  · exact same'
  · exact absurd same.symm (Nat.ne_of_lt (reach_lt t lt))

theorem not_mem_takeWhile {p : UInt8 → Bool} (stops : p lf = false) (t : Bytes) : lf ∉ t.takeWhile p := by
  intro member
  rw [List.mem_takeWhile_imp member] at stops
  cases stops

theorem reach_takeWhile {p : UInt8 → Bool} (stops : p lf = false) (t : Bytes) :
    reach t (t.takeWhile p).length = (t.takeWhile p).length := by
  refine reach_of_free fun member => ?_
  rw [← List.prefix_iff_eq_take.mp (List.takeWhile_prefix p)] at member
  exact not_mem_takeWhile stops t member

/-! ## Stretches -/

theorem length_crlf_take (le : n ≤ t.length) : (crlf (t.take n)).length = reach t n := by
  rw [length_crlf, List.length_take_of_le le, reach, reach, List.take_take, Nat.min_self]

theorem crlf_split (le : n ≤ t.length) : ∃ front, front.length = reach t n ∧ front = crlf (t.take n) ∧
    crlf t = front ++ crlf (t.drop n) := by
  refine ⟨_, length_crlf_take le, rfl, ?_⟩
  rw [← crlf_append, List.take_append_drop]

theorem drop_crlf (le : n ≤ t.length) : (crlf t).drop (reach t n) = crlf (t.drop n) := by
  obtain ⟨front, length, -, whole⟩ := crlf_split le
  rw [whole, List.drop_left' length]

theorem take_crlf (le : n ≤ t.length) : (crlf t).take (reach t n) = crlf (t.take n) := by
  obtain ⟨front, length, same, whole⟩ := crlf_split le
  rw [whole, List.take_left' length, same]

theorem slice_crlf {start stop : Nat} (order : start ≤ stop) (le : stop ≤ t.length) :
    slice (crlf t) (reach t start) (reach t stop) = crlf (t.slice start stop) := by
  have inside : stop - start ≤ (t.drop start).length := by
    rw [List.length_drop]
    omega
  have apart : reach t stop = reach t start + reach (t.drop start) (stop - start) := by
    rw [← reach_add, Nat.add_sub_cancel' order]
  rw [slice, slice, drop_crlf (Nat.le_trans order le), apart, Nat.add_sub_cancel_left, take_crlf inside]

/-- The byte in front of an offset stays the one in front of it. -/
theorem getElem?_crlf (some : 0 < n) : (crlf t)[reach t n - 1]? = t[n - 1]? := by
  obtain ⟨m, rfl⟩ := Nat.exists_eq_add_of_lt some
  rw [Nat.zero_add, Nat.add_sub_cancel]
  by_cases inside : m < t.length
  · have here : ∀ d, (crlf t)[reach t m + d]? = (crlf (t[m] :: t.drop (m + 1)))[d]? := by
      intro d
      rw [← List.drop_eq_getElem_cons inside, ← drop_crlf (Nat.le_of_lt inside), List.getElem?_drop]
    have known := List.getElem?_eq_getElem inside
    rw [known, reach_add, List.drop_eq_getElem_cons inside]
    by_cases same : t[m] = lf
    · rw [same] at here ⊢
      exact here 1
    · rw [reach_cons same]
      refine (here 0).trans ?_
      rw [crlf_cons same]
      rfl
  · have outside := Nat.not_lt.mp inside
    have := reach_le t outside
    have := reach_lt t (Nat.lt_add_one m)
    rw [List.getElem?_eq_none outside, List.getElem?_eq_none]
    rw [length_crlf]
    omega

/-! ## Searching -/

/-- `g` moves the offsets of a text that starts at `pos` like the text is moved. -/
def Tracks (g : Nat → Nat) (pos : Nat) (t : Bytes) : Prop := ∀ k ≤ t.length, g (pos + k) = g pos + reach t k

namespace Tracks

variable {g : Nat → Nat} {pos : Nat}

theorem of_append (tracks : Tracks g pos (t ++ u)) : Tracks g pos t := by
  intro k le
  rw [tracks k (Nat.le_trans le (by simp)), reach, List.take_append_of_le_length le, reach]

theorem drop (tracks : Tracks g pos t) (le : n ≤ t.length) : Tracks g (pos + n) (t.drop n) := by
  intro k bound
  rw [List.length_drop] at bound
  rw [Nat.add_assoc, tracks (n + k) (by omega), tracks n le, reach_add, Nat.add_assoc]

theorem behind (tracks : Tracks g pos (t ++ u)) : Tracks g (pos + t.length) u := by
  have rest := tracks.drop (n := t.length) (by simp)
  rw [List.drop_left] at rest
  exact rest

theorem tail (tracks : Tracks g pos (b :: t)) : Tracks g (pos + 1) t := tracks.drop (n := 1) (by simp)

theorem next_lf (tracks : Tracks g pos (lf :: t)) : g (pos + 1) = g pos + 2 := tracks 1 (by simp)

theorem next (tracks : Tracks g pos (b :: t)) (other : b ≠ lf) : g (pos + 1) = g pos + 1 := by
  rw [tracks 1 (by simp), reach_cons other, reach_zero]

end Tracks

theorem tracks_self (t : Bytes) : Tracks (reach t) 0 t := fun k _ => by rw [Nat.zero_add, reach_zero, Nat.zero_add]

theorem head?_crlf (other : b ≠ lf) (noReturn : b ≠ cr) (t : Bytes) :
    ((crlf t).head? == some b) = (t.head? == some b) := by
  cases t with
  | nil => rfl
  | cons c t =>
      by_cases same : c = lf
      · subst same
        rw [crlf_lf]
        simp [other.symm, noReturn.symm]
      · rw [crlf_cons same]
        rfl

theorem takeWhile_crlf {p : UInt8 → Bool} (stops : p lf = false) (stops' : p cr = false) (t : Bytes) :
    (crlf t).takeWhile p = t.takeWhile p := by
  induction t with
  | nil => rfl
  | cons c t ih =>
      by_cases same : c = lf
      · subst same
        simp [crlf_lf, stops, stops']
      · rw [crlf_cons same, List.takeWhile_cons, List.takeWhile_cons, ih]

theorem dropWhile_crlf {p : UInt8 → Bool} (stops : p lf = false) (stops' : p cr = false) (t : Bytes) :
    (crlf t).dropWhile p = crlf (t.dropWhile p) := by
  induction t with
  | nil => rfl
  | cons c t ih =>
      by_cases same : c = lf
      · subst same
        simp [crlf_lf, stops, stops']
      · rw [crlf_cons same, List.dropWhile_cons, List.dropWhile_cons, ih]
        split
        · rfl
        · rw [crlf_cons same]

theorem indexOf?_crlf (other : b ≠ lf) (noReturn : b ≠ cr) (t : Bytes) :
    (crlf t).indexOf? b = (t.indexOf? b).map (reach t) := by
  induction t with
  | nil => rfl
  | cons c t ih =>
      simp only [indexOf?] at ih ⊢
      by_cases same : c = lf
      · subst same
        simp only [crlf_lf, List.findIdx?_cons, beq_eq_false_iff_ne.mpr other.symm,
          beq_eq_false_iff_ne.mpr noReturn.symm, ih]
        cases t.findIdx? (· == b) <;> simp [reach_lf]
      · simp only [crlf_cons same, List.findIdx?_cons, ih]
        cases c == b <;> cases t.findIdx? (· == b) <;> simp [reach_cons same, reach_zero]

end

end Colloquy.Bytes
