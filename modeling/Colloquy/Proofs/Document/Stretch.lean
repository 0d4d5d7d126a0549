import Colloquy.Proofs.Document.Inline
import Colloquy.Proofs.Text.Bytes
import Colloquy.Proofs.Text.Rune
import Colloquy.Text.Space

/-! # A stretch of text is scanned by itself

What the inline scan finds in a stretch depends on its bytes only. Where the stretch lies in the document moves
what is found and changes nothing else, and bytes around it that mean nothing to the scan, such as blank lines, can
be left out. The bytes in front are passed one by one; those behind are never what a construct waits for.
-/

namespace Colloquy.Document

def Node.move (k : Nat) (n : Node) : Node := { n with start := n.start + k, stop := n.stop + k }

namespace Bracket

variable {left right : UInt8} {tail : Bytes}

theorem closingFrom_eq_none (absent : right ∉ tail) (escaped : Bool) (depth : Int) (pos : Nat) :
    closingFrom left right escaped depth pos tail = none := by
  fun_induction closingFrom left right escaped depth pos tail with
  | case1 => rfl
  | case5 depth pos b rest _ _ isRight _ =>
      obtain rfl : b = right := by simpa using isRight
      exact absurd List.mem_cons_self absent
  | case2 depth pos b rest ih | case3 depth pos b rest _ ih | case4 depth pos b rest _ _ ih
  | case6 depth pos b rest _ _ _ _ ih | case7 depth pos b rest _ _ _ ih =>
      exact ih fun member => absent (List.mem_cons_of_mem _ member)

/-- Behind the text, only another closing bracket could matter. -/
theorem closingFrom_append (absent : right ∉ tail) (escaped : Bool) (depth : Int) (pos : Nat) (t : Bytes) :
    closingFrom left right escaped depth pos (t ++ tail) = closingFrom left right escaped depth pos t := by
  fun_induction closingFrom left right escaped depth pos t with
  | case1 => exact closingFrom_eq_none absent _ _ _
  | case2 depth pos b rest ih => rw [List.cons_append, closingFrom, ih]
  | case3 | case4 | case5 | case6 | case7 => simp_all [closingFrom]

theorem closing?_append (absent : right ∉ tail) (t : Bytes) : closing? left right (t ++ tail) = closing? left right t :=
  closingFrom_append absent false 0 0 t

/-- A bracket that is closed stays closed at the same place, whatever stands behind. -/
theorem closingFrom_append_of_some {escaped : Bool} {depth : Int} {pos close : Nat} {t : Bytes}
    (found : closingFrom left right escaped depth pos t = some close) (tail : Bytes) :
    closingFrom left right escaped depth pos (t ++ tail) = some close := by
  fun_induction closingFrom left right escaped depth pos t with
  | case1 => cases found
  | case2 depth pos b rest ih => rw [List.cons_append, closingFrom, ih found]
  | case3 | case4 | case5 | case6 | case7 => simp_all [closingFrom]

/-- What stands behind the place where a bracket is closed has no part in it. -/
theorem closingFrom_of_append {escaped : Bool} {depth : Int} {pos close : Nat} {t tail : Bytes}
    (found : closingFrom left right escaped depth pos (t ++ tail) = some close) (inside : close < pos + t.length) :
    closingFrom left right escaped depth pos t = some close := by
  fun_induction closingFrom left right escaped depth pos t with
  | case1 escaped depth pos =>
      have bounds := closingFrom_bounds found
      simp only [List.length_nil] at inside
      omega
  | case2 depth pos b rest ih =>
      rw [List.cons_append, closingFrom] at found
      simp only [List.length_cons] at inside
      exact ih found (by omega)
  | case5 depth pos b rest escape other closes last => simpa [closingFrom, escape, other, closes, last] using found
  | case3 depth pos b rest escape ih =>
      simp only [List.cons_append, List.length_cons, closingFrom, escape] at found inside
      exact ih found (by omega)
  | case4 depth pos b rest escape opens ih =>
      simp only [List.cons_append, List.length_cons, closingFrom, escape, opens] at found inside
      exact ih found (by omega)
  | case6 depth pos b rest escape opens closes more ih =>
      simp only [List.cons_append, List.length_cons, closingFrom, escape, opens, closes, more] at found inside
      exact ih found (by omega)
  | case7 depth pos b rest escape opens closes ih =>
      simp only [List.cons_append, List.length_cons, closingFrom, escape, opens, closes] at found inside
      exact ih found (by omega)

/-- Bytes without a meaning to the match are passed. -/
theorem closingFrom_passed {t : Bytes} (free : ∀ b ∈ t, b ≠ backslash ∧ b ≠ left ∧ b ≠ right) (depth : Int) (pos : Nat)
    (behind : Bytes) :
    closingFrom left right false depth pos (t ++ behind) =
      closingFrom left right false depth (pos + t.length) behind := by
  induction t generalizing pos with
  | nil => rfl
  | cons b t ih =>
      obtain ⟨⟨escape, opens, closes⟩, others⟩ := List.forall_mem_cons.mp free
      rw [List.cons_append, closingFrom, if_neg (by simpa using escape), if_neg (by simpa using opens),
        if_neg (by simpa using closes), ih others, List.length_cons, Nat.add_assoc, Nat.add_comm 1]

theorem closingFrom_getElem {escaped : Bool} {t : Bytes} {close : Nat} {depth : Int} {pos : Nat}
    (found : closingFrom left right escaped depth pos t = some close) : t[close - pos]? = some right := by
  fun_induction closingFrom left right escaped depth pos t with
  | case1 => cases found
  | case5 depth pos b rest _ _ isRight _ =>
      cases found
      rw [Nat.sub_self, List.getElem?_cons_zero, eq_of_beq isRight]
  | case2 depth pos b rest ih | case3 depth pos b rest _ ih | case4 depth pos b rest _ _ ih
  | case6 depth pos b rest _ _ _ _ ih | case7 depth pos b rest _ _ _ ih =>
      have bounds := closingFrom_bounds found
      rw [show close - pos = close - (pos + 1) + 1 by omega, List.getElem?_cons_succ]
      exact ih found

/-- Where the text lies moves what is found. -/
theorem closingFrom_move {escaped : Bool} {depth : Int} (k pos : Nat) (t : Bytes) :
    closingFrom left right escaped depth (pos + k) t = (closingFrom left right escaped depth pos t).map (· + k) := by
  fun_induction closingFrom left right escaped depth pos t with
  | case1 => rfl
  | case2 depth pos b rest ih => rw [closingFrom, Nat.add_right_comm, ih]
  | case5 depth pos b rest escape other closes last => simp [closingFrom, escape, other, closes, last]
  | case3 depth pos b rest escape ih => simp only [closingFrom, escape, Nat.add_right_comm pos k, if_true, ih]
  | case4 depth pos b rest escape opens ih =>
      simp only [closingFrom, escape, opens, Nat.add_right_comm pos k, if_true, ih]
      rfl
  | case6 depth pos b rest escape opens closes more ih =>
      simp only [closingFrom, escape, opens, closes, more, Nat.add_right_comm pos k, if_true, ih]
      rfl
  | case7 depth pos b rest escape opens closes ih =>
      simp only [closingFrom, escape, opens, closes, Nat.add_right_comm pos k, ih]
      rfl

theorem closing?_append_of_some {t : Bytes} {close : Nat} (found : closing? left right t = some close) (tail : Bytes) :
    closing? left right (t ++ tail) = some close :=
  closingFrom_append_of_some found tail

theorem closing?_of_append {t : Bytes} {close : Nat} (found : closing? left right (t ++ tail) = some close)
    (inside : close < t.length) : closing? left right t = some close :=
  closingFrom_of_append found (by omega)

theorem closing?_getElem {t : Bytes} {close : Nat} (found : closing? left right t = some close) :
    t[close]? = some right :=
  closingFrom_getElem found

/-- What stands between a bracket and the one that closes it. -/
theorem closing?_split {left right : UInt8} {t : Bytes} {close : Nat} (meaning : left ≠ backslash)
    (found : closing? left right (left :: t) = some close) :
    ∃ inner tail, t = inner ++ right :: tail ∧ close = inner.length + 1 := by
  rw [closing?, closingFrom, if_neg (by simpa using meaning), if_pos (by simp)] at found
  have bounds := closingFrom_bounds found
  obtain ⟨inner, tail, split, length⟩ := Bytes.exists_split (closingFrom_getElem found)
  exact ⟨inner, tail, split, by omega⟩

end Bracket

namespace Inline

/-! ## One step of the scan -/

/-- Whether a link or an image may start at `b`, which `rest` follows. -/
def startsLink (b : UInt8) (rest : Bytes) : Bool := b == 0x5B || (b == 0x21 && rest.head? == some 0x5B)

/-- A byte with which no construct starts, whatever follows it. -/
def Inert (b : UInt8) (rest : Bytes) : Prop :=
  b ≠ Bracket.backslash ∧ b ≠ 0x60 ∧ b ≠ 0x3A ∧ startsLink b rest = false ∧ b ≠ 0x3C

section

variable {before : Option UInt8} {pos n : Nat} {b : UInt8} {rest : Bytes} {d : DirectiveParts}

theorem scan_nil : scan before pos [] = [] := by rw [scan]

theorem scan_escape : scan before pos (Bracket.backslash :: rest) = scan rest.head? (pos + 2) (rest.drop 1) := by
  rw [scan, if_pos (by rfl)]

theorem scan_code (length : codeSpanLength (0x60 :: rest) = n) :
    scan before pos (0x60 :: rest) = scan (lastOf (0x60 :: rest) n) (pos + n) (rest.drop (n - 1)) := by
  rw [scan, if_neg (by decide), if_pos (by rfl), length]

theorem scan_directive (found : directiveAt? before rest = some d) :
    scan before pos (0x3A :: rest) = ⟨.directive, d.name, pos, pos + d.length, 0⟩ ::
      (scan none (pos + d.name.length + 2) d.inner ++
        scan (lastOf (0x3A :: rest) d.length) (pos + d.length) (rest.drop (d.length - 1))) := by
  rw [scan, if_neg (by decide), if_neg (by decide), if_pos (by rfl)]
  split
  · rename_i d' found'
    obtain rfl : d' = d := Option.some.inj (found'.symm.trans found)
    rfl
  · rename_i none
    rw [none] at found
    cases found

theorem scan_colon (none : directiveAt? before rest = none) :
    scan before pos (0x3A :: rest) = scan (some 0x3A) (pos + 1) rest := by
  rw [scan, if_neg (by decide), if_neg (by decide), if_pos (by rfl)]
  split
  · rename_i found
    rw [none] at found
    cases found
  · rfl

theorem startsLink_cases (starts : startsLink b rest = true) : b = 0x5B ∨ b = 0x21 := by
  simp only [startsLink, Bool.or_eq_true, Bool.and_eq_true, beq_iff_eq] at starts
  exact starts.imp_right And.left

theorem scan_bracket (starts : startsLink b rest = true) {found : Option Nat}
    (known : link? before (b :: rest) = found) :
    scan before pos (b :: rest) = (found.elim (scan (some b) (pos + 1) rest) fun n =>
      ⟨.link, [], pos, pos + n, 0⟩ :: scan (lastOf (b :: rest) n) (pos + n) (rest.drop (n - 1))) := by
  have plain : (b == Bracket.backslash) = false ∧ (b == 0x60) = false ∧ (b == 0x3A) = false := by
    obtain rfl | rfl := startsLink_cases starts <;> decide
  rw [startsLink] at starts
  rw [scan, plain.1, plain.2.1, plain.2.2, starts, known]
  cases found <;> rfl

theorem scan_angle {found : Option Nat} (known : autolink? rest = found) :
    scan before pos (0x3C :: rest) = (found.elim (scan (some 0x3C) (pos + 1) rest) fun n =>
      ⟨.link, [], pos, pos + n, 0⟩ :: scan (lastOf (0x3C :: rest) n) (pos + n) (rest.drop (n - 1))) := by
  rw [scan, if_neg (by decide), if_neg (by decide), if_neg (by decide), if_neg (by simp), if_pos (by rfl), known]
  cases found <;> rfl

theorem scan_inert (inert : Inert b rest) : scan before pos (b :: rest) = scan (some b) (pos + 1) rest := by
  obtain ⟨escape, code, colon, link, angle⟩ := inert
  rw [startsLink] at link
  rw [scan, if_neg (by simpa using escape), if_neg (by simpa using code), if_neg (by simpa using colon),
    if_neg (by rw [link]; decide), if_neg (by simpa using angle)]

end

theorem scan_move (k : Nat) (before : Option UInt8) (pos : Nat) (t : Bytes) :
    scan before (pos + k) t = (scan before pos t).map (Node.move k) := by
  fun_induction scan before pos t with
  | case1 before pos => rw [scan_nil, List.map_nil]
  | case2 before pos b rest escape ih =>
      obtain rfl : b = Bracket.backslash := by simpa using escape
      rw [scan_escape, ← ih, Nat.add_right_comm]
  | case3 before pos b rest _ backtick n ih =>
      obtain rfl : b = 0x60 := by simpa using backtick
      rw [scan_code rfl, ← ih, Nat.add_right_comm]
  | case4 before pos b rest _ _ colon d found ihInner ihBehind =>
      obtain rfl : b = 0x3A := by simpa using colon
      rw [scan_directive found, List.map_cons, List.map_append, ← ihInner, ← ihBehind]
      simp only [Node.move, Nat.add_right_comm _ k]
  | case5 before pos b rest _ _ colon none ih =>
      obtain rfl : b = 0x3A := by simpa using colon
      rw [scan_colon none, ← ih, Nat.add_right_comm]
  | case6 before pos b rest _ _ _ starts n found ih =>
      rw [scan_bracket starts found, List.map_cons, ← ih]
      simp only [Option.elim_some, Node.move, Nat.add_right_comm _ k]
  | case7 before pos b rest _ _ _ starts none ih =>
      rw [scan_bracket starts none, ← ih, Nat.add_right_comm]
      rfl
  | case8 before pos b rest _ _ _ _ angle n found ih =>
      obtain rfl : b = 0x3C := by simpa using angle
      rw [scan_angle found, List.map_cons, ← ih]
      simp only [Option.elim_some, Node.move, Nat.add_right_comm _ k]
  | case9 before pos b rest _ _ _ _ angle none ih =>
      obtain rfl : b = 0x3C := by simpa using angle
      rw [scan_angle none, ← ih, Nat.add_right_comm]
      rfl
  | case10 before pos b rest escape backtick colon link angle ih =>
      have inert : Inert b rest := by
        simp only [beq_iff_eq, Bool.not_eq_true] at escape backtick colon link angle
        exact ⟨escape, backtick, colon, link, angle⟩
      rw [scan_inert inert, ← ih, Nat.add_right_comm]

/-! ## Bytes without meaning -/

/-- A control byte, a space or a byte outside ASCII: no construct starts or ends with it. -/
def IsPlain (b : UInt8) : Prop := b.toNat ≤ 0x20 ∨ 0x80 ≤ b.toNat

/-- Printed ASCII, which includes every byte with a meaning. -/
def IsPrinted (b : UInt8) : Prop := 0x20 < b.toNat ∧ b.toNat < 0x80

instance (b : UInt8) : Decidable (IsPrinted b) := inferInstanceAs (Decidable (_ ∧ _))

namespace IsPlain

variable {b : UInt8}

theorem ne {c : UInt8} (plain : IsPlain b) (printed : IsPrinted c) : b ≠ c := by
  rintro rfl
  simp only [IsPlain] at plain
  simp only [IsPrinted] at printed
  omega

theorem not_isLetter (plain : IsPlain b) : Bytes.isLetter b = false := by
  simp only [IsPlain] at plain
  simp only [Bytes.isLetter, Bool.or_eq_false_iff, Bool.and_eq_false_iff, decide_eq_false_iff_not,
    UInt8.le_iff_toNat_le, UInt8.reduceToNat]
  omega

theorem not_isDigit (plain : IsPlain b) : Bytes.isDigit b = false := by
  simp only [IsPlain] at plain
  simp only [Bytes.isDigit, Bool.and_eq_false_iff, decide_eq_false_iff_not, UInt8.le_iff_toNat_le,
    UInt8.reduceToNat]
  omega

theorem not_isNameByte (plain : IsPlain b) : isNameByte b = false := by
  have underscore : b ≠ 0x5F := plain.ne (by decide)
  have hyphen : b ≠ 0x2D := plain.ne (by decide)
  simp [isNameByte, plain.not_isLetter, plain.not_isDigit, underscore, hyphen]

theorem not_isSchemeByte (plain : IsPlain b) : isSchemeByte b = false := by
  have plus : b ≠ 0x2B := plain.ne (by decide)
  have dot : b ≠ 0x2E := plain.ne (by decide)
  have hyphen : b ≠ 0x2D := plain.ne (by decide)
  simp [isSchemeByte, plain.not_isLetter, plain.not_isDigit, plus, dot, hyphen]

theorem inert (plain : IsPlain b) (rest : Bytes) : Inert b rest := by
  have bracket : b ≠ 0x5B := plain.ne (by decide)
  have bang : b ≠ 0x21 := plain.ne (by decide)
  refine ⟨plain.ne (by decide), plain.ne (by decide), plain.ne (by decide), ?_, plain.ne (by decide)⟩
  simp [startsLink, bracket, bang]

end IsPlain

theorem isPlain_lead {lead : UInt8} {more : Bytes} {code : Nat} (sequence : Rune.Sequence lead more code)
    (space : isWhiteSpace code = true) : IsPlain lead := by
  cases sequence with
  | one ascii =>
      simp only [isWhiteSpace, Bool.or_eq_true, Bool.and_eq_true, decide_eq_true_eq, beq_iff_eq] at space
      simp only [UInt8.lt_iff_toNat_lt, UInt8.reduceToNat] at ascii
      exact .inl (by omega)
  | two low _ _ | three low _ _ _ | four low _ _ _ _ =>
      simp only [UInt8.le_iff_toNat_le, UInt8.reduceToNat] at low
      exact .inr (by omega)

theorem isPlain_of_isBlank {t : Bytes} (blank : t.isBlank = true) : ∀ b ∈ t, IsPlain b := by
  induction t using Bytes.runeInduction with
  | nil => simp
  | cons lead rest ih =>
      rw [Bytes.isBlank, Bytes.runes_cons, List.all_cons, Bool.and_eq_true] at blank
      obtain ⟨here, behind⟩ := blank
      obtain ⟨more, tail, code, rfl, sequence⟩ | alone := Rune.sequence_or_invalid lead rest
      · rw [sequence.decode_append tail] at here behind ih
        rw [List.drop_succ_cons, List.drop_left] at behind ih
        intro b member
        obtain _ | ⟨_, member⟩ := member
        · exact isPlain_lead sequence here
        · obtain member | member := List.mem_append.mp member
          · exact .inr (sequence.continued b member).1
          · exact ih behind b member
      · rw [alone] at here
        simp [Rune.invalid, Rune.replacement, isWhiteSpace] at here

theorem scan_passed {lead : Bytes} (inert : ∀ b ∈ lead, ∀ rest, Inert b rest) (before : Option UInt8) (pos : Nat)
    (t : Bytes) : scan before pos (lead ++ t) = scan (lead.getLast?.or before) (pos + lead.length) t := by
  induction lead generalizing before pos with
  | nil => rfl
  | cons b lead ih =>
      obtain ⟨first, others⟩ := List.forall_mem_cons.mp inert
      rw [List.cons_append, scan_inert (first _), ih others, List.getLast?_cons, List.length_cons, Nat.add_right_comm,
        ← Nat.add_assoc]
      cases lead.getLast? <;> rfl

theorem scan_leading {lead : Bytes} (plain : ∀ b ∈ lead, IsPlain b) (before : Option UInt8) (pos : Nat) (t : Bytes) :
    scan before pos (lead ++ t) = scan (lead.getLast?.or before) (pos + lead.length) t :=
  scan_passed (fun b member => (plain b member).inert) before pos t

theorem scan_plain {t : Bytes} (plain : ∀ b ∈ t, IsPlain b) (before : Option UInt8) (pos : Nat) :
    scan before pos t = [] := by
  have passed := scan_leading plain before pos []
  rw [List.append_nil] at passed
  rw [passed, scan_nil]

/-- The start of a line is like the start of a text. -/
theorem scan_behind_lf (pos : Nat) (t : Bytes) : scan (some Bytes.lf) pos t = scan none pos t := by
  cases t with
  | nil => rw [scan_nil, scan_nil]
  | cons b rest =>
      rw [scan, scan]
      rfl

/-! ## Bytes behind a stretch -/

section

variable {tail : Bytes} {p : UInt8 → Bool}

theorem takeWhile_append_of_stop (stops : ∀ b ∈ tail.head?, p b = false) (t : Bytes) :
    (t ++ tail).takeWhile p = t.takeWhile p := by
  have none : tail.takeWhile p = [] := by
    cases tail with
    | nil => rfl
    | cons b tail => rw [List.takeWhile_cons_of_neg (by simp [stops b rfl])]
  induction t with
  | nil => exact none
  | cons b t ih => rw [List.cons_append, List.takeWhile_cons, List.takeWhile_cons, ih]

theorem dropWhile_append_of_stop (stops : ∀ b ∈ tail.head?, p b = false) (t : Bytes) :
    (t ++ tail).dropWhile p = t.dropWhile p ++ tail := by
  have all : tail.dropWhile p = tail := by
    cases tail with
    | nil => rfl
    | cons b tail => rw [List.dropWhile_cons_of_neg (by simp [stops b rfl])]
  induction t with
  | nil => exact all
  | cons b t ih =>
      rw [List.cons_append, List.dropWhile_cons, List.dropWhile_cons, ih]
      split <;> rfl

/-- A run of bytes that pass a test ends in front of the first one that does not. -/
theorem takeWhile_run {run : Bytes} (pass : ∀ b ∈ run, p b = true) (stops : ∀ b ∈ tail.head?, p b = false) :
    (run ++ tail).takeWhile p = run := by
  have none : tail.takeWhile p = [] := takeWhile_append_of_stop stops []
  rw [List.takeWhile_append_of_pos pass, none, List.append_nil]

theorem dropWhile_run {run : Bytes} (pass : ∀ b ∈ run, p b = true) (stops : ∀ b ∈ tail.head?, p b = false) :
    (run ++ tail).dropWhile p = tail := by
  rw [List.dropWhile_append_of_pos pass]
  exact dropWhile_append_of_stop stops []

theorem lastOf_append {n : Nat} {b : UInt8} {rest : Bytes} (bounds : 0 < n ∧ n ≤ rest.length + 1) :
    lastOf (b :: (rest ++ tail)) n = lastOf (b :: rest) n := by
  rw [lastOf, ← List.cons_append, List.getElem?_append_left (by rw [List.length_cons]; omega), lastOf]

theorem slice_append_of_le {t : Bytes} (start : Nat) {stop : Nat} (le : stop ≤ t.length) :
    Bytes.slice (t ++ tail) start stop = Bytes.slice t start stop := by
  unfold Bytes.slice
  by_cases inside : start ≤ t.length
  · rw [List.drop_append_of_le_length inside, List.take_append_of_le_length]
    rw [List.length_drop]
    omega
  · rw [Nat.sub_eq_zero_of_le (by omega), List.take_zero, List.take_zero]

end

theorem angleFrom_lt {escaped : Bool} {pos stop : Nat} {t : Bytes} (found : angleFrom escaped pos t = some stop) :
    stop < pos + t.length := by
  fun_induction angleFrom escaped pos t with
  | case1 | case5 => simp at found
  | case4 pos b rest _ _ => cases found; simp
  | case2 pos b rest ih | case3 pos b rest _ ih | case6 pos b rest _ _ _ ih =>
      have := ih found
      simp only [List.length_cons]
      omega

theorem angleFrom_getElem {escaped : Bool} {pos stop : Nat} {t : Bytes} (found : angleFrom escaped pos t = some stop) :
    pos ≤ stop ∧ t[stop - pos]? = some 0x3E := by
  fun_induction angleFrom escaped pos t with
  | case1 | case5 => cases found
  | case4 pos b rest _ closes =>
      cases found
      rw [Nat.sub_self, List.getElem?_cons_zero, eq_of_beq closes]
      exact ⟨Nat.le_refl _, rfl⟩
  | case2 pos b rest ih | case3 pos b rest _ ih | case6 pos b rest _ _ _ ih =>
      obtain ⟨le, here⟩ := ih found
      rw [show stop - pos = stop - (pos + 1) + 1 by omega, List.getElem?_cons_succ]
      exact ⟨Nat.le_of_succ_le le, here⟩

theorem indexOf?_getElem {t : Bytes} {b : UInt8} {i : Nat} (found : t.indexOf? b = some i) : t[i]? = some b := by
  obtain ⟨inside, same, -⟩ := List.findIdx?_eq_some_iff_getElem.mp found
  rw [List.getElem?_eq_getElem inside, eq_of_beq same]

theorem destination?_getElem {t : Bytes} {close : Nat} (found : destination? t = some close) :
    t[close]? = some 0x29 := by
  simp only [destination?] at found
  split at found
  · split at found
    · cases found
    · obtain ⟨i, close, rfl⟩ := Option.map_eq_some_iff.mp found
      have here := indexOf?_getElem close
      rw [List.getElem?_drop, List.getElem?_drop] at here
      rw [← here]
      congr 1
      omega
  · exact Bracket.closing?_getElem found

theorem autolinkEnd_getElem {pos stop : Nat} {t : Bytes} (found : autolinkEnd pos t = some stop) :
    pos ≤ stop ∧ t[stop - pos]? = some 0x3E := by
  fun_induction autolinkEnd pos t with
  | case1 | case3 => cases found
  | case2 pos b rest closes =>
      cases found
      rw [Nat.sub_self, List.getElem?_cons_zero, eq_of_beq closes]
      exact ⟨Nat.le_refl _, rfl⟩
  | case4 pos b rest _ _ ih =>
      obtain ⟨le, here⟩ := ih found
      rw [show stop - pos = stop - (pos + 1) + 1 by omega, List.getElem?_cons_succ]
      exact ⟨Nat.le_of_succ_le le, here⟩

/-! ## How a directive is written -/

/-- The name of a directive: a letter, then bytes that may follow one. -/
structure IsName (name : Bytes) : Prop where
  letter : ∃ b ∈ name.head?, Bytes.isLetter b = true
  bytes : ∀ b ∈ name, isNameByte b = true

/-- A directive behind its colon: its name, its contents between brackets that close each other, and then a text that
begins with its attributes. -/
structure DirectiveParts.Spelled (d : DirectiveParts) (t tail : Bytes) : Prop where
  text : t = d.name ++ 0x5B :: (d.inner ++ 0x5D :: tail)
  name : IsName d.name
  closed : Bracket.square? (0x5B :: (d.inner ++ 0x5D :: tail)) = some (d.inner.length + 1)
  attributes : d.attributes = attributesLength tail

theorem directive?_spelled {t : Bytes} {d : DirectiveParts} (found : directive? t = some d) :
    ∃ tail, d.Spelled t tail := by
  cases t with
  | nil => cases found
  | cons b t =>
      have whole := List.takeWhile_append_dropWhile (p := isNameByte) (l := b :: t)
      have named := List.all_takeWhile (p := isNameByte) (l := b :: t)
      have first : ∀ b' ∈ ((b :: t).takeWhile isNameByte).head?, b' = b := by
        intro b' here
        rw [List.takeWhile_cons] at here
        split at here <;> cases here
        rfl
      simp only [directive?] at found
      generalize (b :: t).takeWhile isNameByte = name at *
      generalize (b :: t).dropWhile isNameByte = rest at *
      split_ifs at found with letter other
      obtain ⟨r, rfl⟩ : ∃ r, rest = 0x5B :: r := List.head?_eq_some_iff.mp (by simpa using other)
      cases closed : Bracket.square? (0x5B :: r) with
      | none => rw [closed] at found; cases found
      | some close =>
          rw [closed] at found
          obtain rfl := Option.some.inj found
          obtain ⟨inner, tail, rfl, rfl⟩ := Bracket.closing?_split (by decide) closed
          have contents : Bytes.slice (0x5B :: (inner ++ 0x5D :: tail)) 1 (inner.length + 1) = inner := List.take_left
          have behind : (0x5B :: (inner ++ 0x5D :: tail)).drop (inner.length + 1 + 1) = tail := by simp
          simp only [contents, behind]
          refine ⟨tail, whole.symm, ⟨?_, List.all_eq_true.mp named⟩, closed, rfl⟩
          -- The bracket is no letter, so the name is not empty.
          cases name with
          | nil =>
              obtain ⟨rfl, -⟩ := List.cons.inj whole
              exact absurd letter (by decide)
          | cons b' name =>
              obtain rfl := first b' rfl
              exact ⟨b', rfl, by simpa using letter⟩

/-- Where a directive is found, one may start, and it is written like one. -/
theorem directiveAt?_spelled {before : Option UInt8} {t : Bytes} {d : DirectiveParts}
    (found : directiveAt? before t = some d) : mayStartDirective before = true ∧ ∃ tail, d.Spelled t tail := by
  unfold directiveAt? at found
  split_ifs at found with may
  exact ⟨may, directive?_spelled found⟩

/-- What is written like a directive is one. -/
theorem DirectiveParts.Spelled.directive?_eq {t tail : Bytes} {d : DirectiveParts} (spelled : d.Spelled t tail) :
    directive? t = some d := by
  obtain ⟨rfl, ⟨letter, bytes⟩, closed, attributes⟩ := spelled
  have stops : ∀ b ∈ (0x5B :: (d.inner ++ 0x5D :: tail) : Bytes).head?, isNameByte b = false := by simp; decide
  have nameOf := takeWhile_run bytes stops
  have restOf := dropWhile_run bytes stops
  have innerOf : Bytes.slice (0x5B :: (d.inner ++ 0x5D :: tail)) 1 (d.inner.length + 1) = d.inner :=
    List.take_left
  have tailOf : (0x5B :: (d.inner ++ 0x5D :: tail)).drop (d.inner.length + 1 + 1) = tail := by
    rw [List.drop_succ_cons, ← List.singleton_append, ← List.append_assoc]
    exact List.drop_left' List.length_append
  obtain ⟨b, first, letter⟩ := letter
  obtain ⟨rest, named⟩ := List.head?_eq_some_iff.mp first
  rw [named, List.cons_append] at nameOf restOf ⊢
  simp only [directive?, letter, nameOf, restOf, closed, innerOf, tailOf, ← named, ← attributes]
  rfl

/-- Every construct has a square bracket or an angle bracket. -/
theorem scan_free {t : Bytes} (free : ∀ b ∈ t, b ≠ 0x5B ∧ b ≠ 0x3C) (before : Option UInt8) (pos : Nat) :
    scan before pos t = [] := by
  have dropped : ∀ {b : UInt8} {rest : Bytes}, (∀ c ∈ b :: rest, c ≠ 0x5B ∧ c ≠ 0x3C) →
      ∀ n, ∀ c ∈ rest.drop n, c ≠ 0x5B ∧ c ≠ 0x3C :=
    fun free n c member => free c (List.mem_cons_of_mem _ (List.mem_of_mem_drop member))
  fun_induction scan before pos t with
  | case1 => rfl
  | case2 before pos b rest _ ih => exact ih (dropped free 1)
  | case3 before pos b rest _ _ n ih => exact ih (dropped free (n - 1))
  | case4 before pos b rest _ _ _ d found =>
      unfold directiveAt? at found
      split_ifs at found
      obtain ⟨tail, spelled⟩ := directive?_spelled found
      exact absurd rfl (free 0x5B (by simp [spelled.text])).1
  | case6 before pos b rest _ _ _ starts =>
      simp only [Bool.or_eq_true, Bool.and_eq_true, beq_iff_eq] at starts
      obtain rfl | ⟨-, bracket⟩ := starts
      · exact absurd rfl (free 0x5B List.mem_cons_self).1
      · exact absurd rfl (free 0x5B (List.mem_cons_of_mem _ (List.mem_of_mem_head? bracket))).1
  | case8 before pos b rest _ _ _ _ angle =>
      exact absurd (eq_of_beq angle) (free b List.mem_cons_self).2
  | case5 before pos b rest _ _ _ _ ih | case7 before pos b rest _ _ _ _ _ ih | case9 before pos b rest _ _ _ _ _ _ ih
  | case10 before pos b rest _ _ _ _ _ ih => exact ih (dropped free 0)

section

variable {t : Bytes} (plain : ∀ b ∈ t, IsPlain b)
include plain

theorem angleFrom_plain (escaped : Bool) (pos : Nat) : angleFrom escaped pos t = none := by
  fun_induction angleFrom escaped pos t with
  | case1 | case5 => rfl
  | case4 pos b rest _ closes =>
      exact absurd (eq_of_beq closes) ((plain b List.mem_cons_self).ne (by decide))
  | case2 pos b rest ih | case3 pos b rest _ ih | case6 pos b rest _ _ _ ih =>
      exact ih fun c member => plain c (List.mem_cons_of_mem _ member)

theorem autolinkEnd_plain (pos : Nat) : autolinkEnd pos t = none := by
  fun_induction autolinkEnd pos t with
  | case1 | case3 => rfl
  | case2 pos b rest closes =>
      exact absurd (eq_of_beq closes) ((plain b List.mem_cons_self).ne (by decide))
  | case4 pos b rest _ _ ih => exact ih fun c member => plain c (List.mem_cons_of_mem _ member)

/-- Without backticks no run of backticks starts. -/
theorem backticksEnd_plain {n : Nat} (some : 0 < n) (pos : Nat) : backticksEnd n 0 pos t = none := by
  induction t generalizing pos with
  | nil => rw [backticksEnd, if_neg (by simpa using Nat.ne_of_lt some)]
  | cons b t ih =>
      obtain ⟨first, others⟩ := List.forall_mem_cons.mp plain
      rw [backticksEnd, if_neg (by simpa using first.ne (by decide)), if_neg (by simpa using Nat.ne_of_lt some),
        ih others]

end

/-- What may stand behind a stretch of text: bytes without meaning, the first of which ends a line. -/
structure Trails (tail : Bytes) : Prop where
  plain : ∀ b ∈ tail, IsPlain b
  ends : ∀ b ∈ tail.head?, b = Bytes.cr ∨ b = Bytes.lf

namespace Trails

variable {tail : Bytes} (trails : Trails tail)
include trails

theorem append {t : Bytes} (first : tail ≠ []) (plain : ∀ b ∈ t, IsPlain b) : Trails (tail ++ t) := by
  refine ⟨fun b member => (List.mem_append.mp member).elim (trails.plain b) (plain b), fun b here => ?_⟩
  cases tail with
  | nil => exact absurd rfl first
  | cons c tail => exact trails.ends b here

theorem not_mem {b : UInt8} (printed : IsPrinted b) : b ∉ tail :=
  fun member => (trails.plain b member).ne printed rfl

theorem stops {p : UInt8 → Bool} (fails : ∀ b, IsPlain b → p b = false) : ∀ b ∈ tail.head?, p b = false :=
  fun b first => fails b (trails.plain b (List.mem_of_mem_head? first))

theorem blank_stops : ∀ b ∈ tail.head?, Bytes.isBlankByte b = false := by
  intro b first
  obtain rfl | rfl := trails.ends b first <;> rfl

theorem word_stops : ∀ b ∈ tail.head?, (!Bytes.isSpaceByte b) = false := by
  intro b first
  obtain rfl | rfl := trails.ends b first <;> rfl

theorem head?_append (t : Bytes) {b : UInt8} (printed : IsPrinted b) :
    ((t ++ tail).head? == some b) = (t.head? == some b) := by
  cases t with
  | cons c t => rfl
  | nil =>
      rw [List.nil_append, List.head?_nil, beq_eq_false_iff_ne.mpr]
      · rfl
      · intro first
        exact trails.not_mem printed (List.mem_of_mem_head? first)

theorem indexOf?_append (t : Bytes) {b : UInt8} (printed : IsPrinted b) :
    Bytes.indexOf? (t ++ tail) b = Bytes.indexOf? t b := by
  have absent : tail.findIdx? (· == b) = none := by
    rw [List.findIdx?_eq_none_iff]
    intro c member
    exact beq_eq_false_iff_ne.mpr ((trails.plain c member).ne printed)
  rw [Bytes.indexOf?, List.findIdx?_append, absent, Option.map_none, Option.or_none, Bytes.indexOf?]

theorem square?_append (t : Bytes) : Bracket.square? (t ++ tail) = Bracket.square? t :=
  Bracket.closing?_append (trails.not_mem (by decide)) t

theorem brace?_append (t : Bytes) : Bracket.brace? (t ++ tail) = Bracket.brace? t :=
  Bracket.closing?_append (trails.not_mem (by decide)) t

theorem paren?_append (t : Bytes) : Bracket.paren? (t ++ tail) = Bracket.paren? t :=
  Bracket.closing?_append (trails.not_mem (by decide)) t

theorem attributesLength_append (t : Bytes) : attributesLength (t ++ tail) = attributesLength t := by
  rw [attributesLength, trails.head?_append t (by decide), trails.brace?_append, attributesLength]

theorem directive?_append (t : Bytes) : directive? (t ++ tail) = directive? t := by
  have name := trails.stops fun b plain => plain.not_isNameByte
  cases t with
  | nil =>
      cases tail with
      | nil => rfl
      | cons b tail => simp [directive?, (trails.plain b List.mem_cons_self).not_isLetter]
  | cons b t =>
      have nameOf := takeWhile_append_of_stop name (b :: t)
      have restOf := dropWhile_append_of_stop name (b :: t)
      rw [List.cons_append] at nameOf restOf
      simp only [List.cons_append, directive?, nameOf, restOf, bne, trails.head?_append _ (b := 0x5B) (by decide),
        trails.square?_append]
      cases closed : Bracket.square? ((b :: t).dropWhile isNameByte) with
      | none => rfl
      | some close =>
          have inside := Bracket.closing?_lt closed
          dsimp only
          rw [slice_append_of_le 1 (Nat.le_of_lt inside), List.drop_append_of_le_length inside,
            trails.attributesLength_append]

theorem directiveAt?_append (before : Option UInt8) (t : Bytes) :
    directiveAt? before (t ++ tail) = directiveAt? before t := by
  rw [directiveAt?, directiveAt?, trails.directive?_append]

theorem angleFrom_append (escaped : Bool) (pos : Nat) (t : Bytes) :
    angleFrom escaped pos (t ++ tail) = angleFrom escaped pos t := by
  fun_induction angleFrom escaped pos t with
  | case1 escaped pos => exact angleFrom_plain trails.plain escaped pos
  | case2 | case3 | case4 | case5 | case6 => simp_all [angleFrom]

theorem destination?_append {t : Bytes} (some : t ≠ []) : destination? (t ++ tail) = destination? t := by
  have first : 1 ≤ t.length := List.length_pos_iff.mpr some
  have blanks := takeWhile_append_of_stop trails.blank_stops (t.drop 1)
  have short := (List.takeWhile_prefix (l := t.drop 1) Bytes.isBlankByte).length_le
  rw [List.length_drop] at short
  simp only [destination?, List.drop_append_of_le_length first, blanks]
  generalize ((t.drop 1).takeWhile Bytes.isBlankByte).length = n at *
  rw [List.drop_append_of_le_length (by omega), trails.head?_append _ (by decide), trails.paren?_append]
  generalize t.drop (1 + n) = rest
  cases rest with
  | nil => rfl
  | cons b rest =>
      rw [List.cons_append, List.drop_one, List.drop_one, List.tail_cons, List.tail_cons, trails.angleFrom_append]
      cases found : angleFrom false 0 rest with
      | none => rfl
      | some angle =>
          have inside := angleFrom_lt found
          dsimp only
          rw [← List.cons_append, List.drop_append_of_le_length (by rw [List.length_cons]; omega),
            trails.indexOf?_append _ (by decide)]

theorem definition?_append {t : Bytes} (some : t ≠ []) : definition? (t ++ tail) = definition? t := by
  have first : 1 ≤ t.length := List.length_pos_iff.mpr some
  have blanks := takeWhile_append_of_stop trails.blank_stops (t.drop 1)
  have short := (List.takeWhile_prefix (l := t.drop 1) Bytes.isBlankByte).length_le
  rw [List.length_drop] at short
  simp only [definition?, List.drop_append_of_le_length first, blanks]
  generalize ((t.drop 1).takeWhile Bytes.isBlankByte).length = n at *
  rw [List.drop_append_of_le_length (by omega), takeWhile_append_of_stop trails.word_stops]

theorem link?_append {t : Bytes} (some : t ≠ []) (before : Option UInt8) :
    link? before (t ++ tail) = link? before t := by
  have first : 1 ≤ t.length := List.length_pos_iff.mpr some
  simp only [link?, trails.head?_append t (b := 0x21) (by decide)]
  generalize bangOf : (if (t.head? == Option.some 0x21) = true then 1 else 0) = bang
  have le : bang ≤ t.length := by
    rw [← bangOf]
    split <;> omega
  rw [List.drop_append_of_le_length le, trails.square?_append]
  cases closed : Bracket.square? (t.drop bang) with
  | none => rfl
  | some close =>
      have inside := Bracket.closing?_lt closed
      rw [List.length_drop] at inside
      dsimp only
      rw [List.drop_append_of_le_length (by omega)]
      generalize t.drop (bang + close + 1) = rest
      cases rest with
      | nil =>
          have none : ∀ b, IsPrinted b → ([] ++ tail).head? ≠ Option.some b := fun b printed found =>
            trails.not_mem printed (List.mem_of_mem_head? found)
          split
          · rename_i found
            exact absurd found (none _ (by decide))
          · rename_i found
            exact absurd found (none _ (by decide))
          · rfl
      | cons b rest =>
          have more : b :: rest ≠ [] := List.cons_ne_nil _ _
          rw [trails.destination?_append more, trails.definition?_append more]
          rfl

theorem autolinkEnd_append (pos : Nat) (t : Bytes) : autolinkEnd pos (t ++ tail) = autolinkEnd pos t := by
  fun_induction autolinkEnd pos t with
  | case1 pos => exact autolinkEnd_plain trails.plain pos
  | case2 | case3 | case4 => simp_all [autolinkEnd]

theorem autolink?_append (t : Bytes) : autolink? (t ++ tail) = autolink? t := by
  have scheme := trails.stops fun b plain => plain.not_isSchemeByte
  cases t with
  | nil =>
      cases tail with
      | nil => rfl
      | cons b tail => simp [autolink?, (trails.plain b List.mem_cons_self).not_isLetter]
  | cons b t =>
      have schemeOf := takeWhile_append_of_stop scheme (b :: t)
      have restOf := dropWhile_append_of_stop scheme (b :: t)
      rw [List.cons_append] at schemeOf restOf
      simp only [List.cons_append, autolink?, schemeOf, restOf, bne, trails.head?_append _ (b := 0x3A) (by decide)]
      generalize (b :: t).dropWhile isSchemeByte = rest
      cases rest with
      | nil => rfl
      | cons c rest => rw [List.cons_append, List.drop_one, List.drop_one, List.tail_cons, List.tail_cons,
          trails.autolinkEnd_append]

theorem backticksEnd_append {n : Nat} (some : 0 < n) (run pos : Nat) (t : Bytes) :
    backticksEnd n run pos (t ++ tail) = backticksEnd n run pos t := by
  induction t generalizing run pos with
  | cons b t ih => rw [List.cons_append, backticksEnd, backticksEnd, ih, ih]
  | nil =>
      cases tail with
      | nil => rfl
      | cons b tail =>
          obtain ⟨first, others⟩ := List.forall_mem_cons.mp trails.plain
          have notBacktick : ¬ (b == 0x60) = true := by simpa using first.ne (by decide)
          rw [List.nil_append, backticksEnd.eq_2, if_neg notBacktick, backticksEnd_plain others some, backticksEnd]

theorem codeSpanLength_append (t : Bytes) : codeSpanLength (0x60 :: t ++ tail) = codeSpanLength (0x60 :: t) := by
  have stops : ∀ b ∈ tail.head?, (b == 0x60) = false :=
    trails.stops fun b plain => beq_eq_false_iff_ne.mpr (plain.ne (by decide))
  have opening : 0 < ((0x60 :: t : Bytes).takeWhile (· == 0x60)).length := by simp
  have le := (List.takeWhile_prefix (l := (0x60 :: t : Bytes)) (· == 0x60)).length_le
  simp only [codeSpanLength, takeWhile_append_of_stop stops]
  generalize ((0x60 :: t : Bytes).takeWhile (· == 0x60)).length = n at *
  rw [List.drop_append_of_le_length le, trails.backticksEnd_append opening]

theorem startsLink_append (b : UInt8) (t : Bytes) : startsLink b (t ++ tail) = startsLink b t := by
  rw [startsLink, trails.head?_append t (by decide), startsLink]

/-- Bytes without meaning behind a stretch change nothing that is found in it. -/
theorem scan_append (before : Option UInt8) (pos : Nat) (t : Bytes) :
    scan before pos (t ++ tail) = scan before pos t := by
  fun_induction scan before pos t with
  | case1 before pos => exact scan_plain trails.plain before pos
  | case2 before pos b rest escape ih =>
      obtain rfl : b = Bracket.backslash := by simpa using escape
      rw [List.cons_append, scan_escape]
      cases rest with
      | nil =>
          -- The escaped byte is the first one behind, if there is one.
          rw [List.drop_nil, scan_nil, List.nil_append]
          exact scan_plain (fun b member => trails.plain b (List.mem_of_mem_drop member)) _ _
      | cons c rest => exact ih
  | case3 before pos b rest _ backtick n ih =>
      obtain rfl : b = 0x60 := by simpa using backtick
      have bounds : 0 < n ∧ n ≤ rest.length + 1 := codeSpanLength_bounds rest
      have same : codeSpanLength (0x60 :: (rest ++ tail)) = n := trails.codeSpanLength_append rest
      rw [List.cons_append, scan_code same, lastOf_append bounds, List.drop_append_of_le_length (by omega), ih]
  | case4 before pos b rest _ _ colon d found ihInner ihBehind =>
      obtain rfl : b = 0x3A := by simpa using colon
      -- The same directive is found, so only what stands behind it gets longer.
      have bounds : 0 < d.length ∧ d.length ≤ rest.length + 1 := ⟨length_pos d, length_le_of_directiveAt? found⟩
      rw [List.cons_append, scan_directive ((trails.directiveAt?_append before rest).trans found),
        lastOf_append bounds, List.drop_append_of_le_length (by omega), ihBehind]
  | case5 before pos b rest _ _ colon none ih =>
      obtain rfl : b = 0x3A := by simpa using colon
      rw [List.cons_append, scan_colon ((trails.directiveAt?_append before rest).trans none), ih]
  | case6 before pos b rest _ _ _ starts n found ih =>
      have bounds := link?_bounds found
      rw [List.length_cons] at bounds
      have found' := (trails.link?_append (List.cons_ne_nil b rest) before).trans found
      rw [List.cons_append, scan_bracket ((trails.startsLink_append b rest).trans starts) found', Option.elim_some,
        lastOf_append bounds, List.drop_append_of_le_length (by omega), ih]
  | case7 before pos b rest _ _ _ starts none ih =>
      have none' := (trails.link?_append (List.cons_ne_nil b rest) before).trans none
      rw [List.cons_append, scan_bracket ((trails.startsLink_append b rest).trans starts) none', Option.elim_none, ih]
  | case8 before pos b rest _ _ _ _ angle n found ih =>
      obtain rfl : b = 0x3C := by simpa using angle
      have bounds := autolink?_bounds found
      rw [List.cons_append, scan_angle ((trails.autolink?_append rest).trans found), Option.elim_some,
        lastOf_append bounds, List.drop_append_of_le_length (by omega), ih]
  | case9 before pos b rest _ _ _ _ angle none ih =>
      obtain rfl : b = 0x3C := by simpa using angle
      rw [List.cons_append, scan_angle ((trails.autolink?_append rest).trans none), Option.elim_none, ih]
  | case10 before pos b rest escape backtick colon link angle ih =>
      have inert : Inert b (rest ++ tail) := by
        simp only [beq_iff_eq, Bool.not_eq_true] at escape backtick colon link angle
        exact ⟨escape, backtick, colon, (trails.startsLink_append b rest).trans link, angle⟩
      rw [List.cons_append, scan_inert inert, ih]

end Trails

end Inline

end Colloquy.Document
