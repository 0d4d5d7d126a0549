import Colloquy.Proofs.Text.Space
import Colloquy.Server.Frame
import Mathlib.Data.List.TakeWhile

/-! # Frames in a stream

A frame can be told from what follows it, and a frame of which a part is missing is never taken for a message.
So from any front of a stream of frames the messages are read whose frames lie wholly in it, and then the input
is found to end.
-/

namespace Colloquy.Frame

/-- The front of two texts is part of the first one, or holds it and a front of the second. -/
theorem front_cases {t a b : Bytes} (front : t <+: a ++ b) :
    (t <+: a ∧ t.length < a.length) ∨ ∃ rest, rest <+: b ∧ t = a ++ rest := by
  by_cases short : t.length < a.length
  · exact .inl ⟨List.prefix_of_prefix_length_le front (List.prefix_append a b) (Nat.le_of_lt short), short⟩
  · obtain ⟨rest, rfl⟩ := List.prefix_of_prefix_length_le (List.prefix_append a b) front (Nat.not_lt.mp short)
    exact .inr ⟨rest, (List.prefix_append_right_inj a).mp front, rfl⟩

/-! ## The header -/

/-- The header line of a message of `size` bytes, without its end. -/
def lengthLine (size : Nat) : Bytes := utf8 "Content-Length: " ++ Bytes.ofNat size

def header (size : Nat) : Bytes := lengthLine size ++ utf8 "\r\n\r\n"

theorem write_eq (message : Bytes) : write message = header message.length ++ message := by
  simp only [write, header, lengthLine, List.append_assoc]

/-- A header is a line, and an empty line behind it. -/
theorem header_eq (size : Nat) :
    header size = (lengthLine size ++ [Bytes.cr]) ++ Bytes.lf :: [Bytes.cr, Bytes.lf] := by
  have ends : utf8 "\r\n\r\n" = [Bytes.cr, Bytes.lf, Bytes.cr, Bytes.lf] := by decide
  rw [header, ends, List.append_assoc]
  rfl

/-- The line holds letters of the name, a colon, a space and digits. -/
theorem not_mem_lengthLine {b : UInt8} (name : b ∉ utf8 "Content-Length: ") (digit : Bytes.isDigit b = false)
    (size : Nat) : b ∉ lengthLine size := by
  intro member
  obtain member | member := List.mem_append.mp member
  · exact name member
  · simp [Bytes.isDigit_of_mem_ofNat member] at digit

theorem lf_not_mem_line (size : Nat) : Bytes.lf ∉ lengthLine size ++ [Bytes.cr] := by
  have line := not_mem_lengthLine (b := Bytes.lf) (by decide) (by decide) size
  simpa [line] using (by decide : Bytes.lf ≠ Bytes.cr)

theorem trimEndWhile_line (size : Nat) :
    Bytes.trimEndWhile (lengthLine size ++ [Bytes.cr]) (· == Bytes.cr) = lengthLine size := by
  have line := not_mem_lengthLine (b := Bytes.cr) (by decide) (by decide) size
  rw [Bytes.trimEndWhile_concat (by decide)]
  exact Bytes.trimEndWhile_eq_self fun b member => beq_eq_false_iff_ne.mpr fun same => line (same ▸ member)

theorem signed_ofNat (size : Nat) : signed (Bytes.ofNat size) = (false, Bytes.ofNat size) := by
  have digits := fun b => Bytes.isDigit_of_mem_ofNat (n := size) (b := b)
  unfold signed
  split
  · rename_i written
    exact absurd (digits 0x2D (by simp [written])) (by decide)
  · rename_i written
    exact absurd (digits 0x2B (by simp [written])) (by decide)
  · rfl

theorem number_ofNat {size : Nat} (small : size < signedLimit) : number (Bytes.ofNat size) = .ok size := by
  have leading : (Bytes.ofNat size).takeWhile Bytes.isDigit = Bytes.ofNat size :=
    List.takeWhile_eq_self_iff.mpr fun b => Bytes.isDigit_of_mem_ofNat
  have some : (Bytes.ofNat size).isEmpty = false := by simp [Bytes.ofNat, Nat.toDigits_ne_nil]
  have word : ¬ wordCount ≤ size := Nat.not_le.mpr (Nat.lt_trans small (by decide))
  have fits : fitsSigned size = true := by
    simp only [fitsSigned, Bool.and_eq_true, decide_eq_true_eq]
    omega
  simp [number, signed_ofNat, leading, Bytes.toNat?_ofNat, some, word, fits]

theorem lengthOf_lengthLine {size : Nat} (fits : size ≤ maxLength) : lengthOf (lengthLine size) = .ok (some size) := by
  have split : Bytes.cut? (lengthLine size) 0x3A = some (utf8 "Content-Length", Bytes.space :: Bytes.ofNat size) := by
    have line : lengthLine size = utf8 "Content-Length" ++ 0x3A :: (Bytes.space :: Bytes.ofNat size) := by
      have name : utf8 "Content-Length: " = utf8 "Content-Length" ++ [0x3A, Bytes.space] := by decide +kernel
      rw [lengthLine, name, List.append_assoc]
      rfl
    rw [line]
    exact Bytes.cut?_append (by decide +kernel) _
  have name : Bytes.lowerAscii (Bytes.trim (utf8 "Content-Length")) = utf8 "content-length" := by decide +kernel
  have value : Bytes.trim (Bytes.space :: Bytes.ofNat size) = Bytes.ofNat size :=
    Bytes.trim_space_digits fun b => Bytes.isDigit_of_mem_ofNat
  have small : size < signedLimit := Nat.lt_of_le_of_lt fits (by decide)
  simp [lengthOf, split, name, value, number_ofNat small, fits]

/-! ## Reading headers -/

theorem headers_line {size : Nat} (fits : size ≤ maxLength) (fuel : Nat) (length : Option Nat) (rest : Bytes) :
    headers (fuel + 1) length ((lengthLine size ++ [Bytes.cr]) ++ Bytes.lf :: rest) =
      headers fuel (some size) rest := by
  have some : (lengthLine size).isEmpty = false := by
    have name : utf8 "Content-Length: " ≠ [] := by decide
    simp [lengthLine, name]
  simp only [headers, Bytes.cut?_append (lf_not_mem_line size), trimEndWhile_line, some,
    lengthOf_lengthLine fits]
  rfl

theorem headers_blank (fuel : Nat) (length : Option Nat) (rest : Bytes) :
    headers (fuel + 1) length ([Bytes.cr] ++ Bytes.lf :: rest) = .ok (length, rest) := by
  have split : Bytes.cut? ([Bytes.cr] ++ Bytes.lf :: rest) Bytes.lf = some ([Bytes.cr], rest) :=
    Bytes.cut?_append (by decide) rest
  simp only [headers, split]
  rfl

theorem headers_unfinished {t : Bytes} (free : Bytes.lf ∉ t) (fuel : Nat) (length : Option Nat) :
    headers fuel length t = .error .finished := by
  cases fuel with
  | zero => rfl
  | succ fuel => simp only [headers, Bytes.cut?_eq_none free]

/-- The header of a frame is read whatever follows. -/
theorem headers_header {size fuel : Nat} (fits : size ≤ maxLength) (enough : 2 ≤ fuel) (rest : Bytes) :
    headers fuel none (header size ++ rest) = .ok (some size, rest) := by
  obtain ⟨fuel, rfl⟩ := Nat.exists_eq_add_of_le' enough
  rw [header_eq, List.append_assoc, List.cons_append, headers_line fits]
  exact headers_blank fuel (some size) rest

/-- Of a header that is cut off nothing is made. -/
theorem headers_cut {size : Nat} (fits : size ≤ maxLength) (fuel : Nat) {t : Bytes}
    (front : t <+: header size) (short : t.length < (header size).length) :
    headers fuel none t = .error .finished := by
  -- The line feed at the end is missing, if nothing else is.
  have missing : t <+: (lengthLine size ++ [Bytes.cr]) ++ [Bytes.lf, Bytes.cr] := by
    have ends : header size = (lengthLine size ++ [Bytes.cr]) ++ [Bytes.lf, Bytes.cr] ++ [Bytes.lf] := by
      rw [header_eq, List.append_assoc _ [Bytes.lf, Bytes.cr]]
      rfl
    rw [ends, List.length_append] at short
    exact List.prefix_of_prefix_length_le front (ends ▸ List.prefix_append _ _) (Nat.lt_succ_iff.mp short)
  obtain ⟨inside, -⟩ | ⟨behind, second, rfl⟩ := front_cases missing
  · exact headers_unfinished (fun member => lf_not_mem_line size (inside.subset member)) fuel none
  · cases behind with
    | nil => exact headers_unfinished (by simpa using lf_not_mem_line size) fuel none
    | cons b rest =>
        obtain ⟨rfl, blank⟩ := List.cons_prefix_cons.mp second
        have free : Bytes.lf ∉ rest := fun member => absurd (blank.subset member) (by decide)
        cases fuel with
        | zero => rfl
        | succ fuel => rw [headers_line fits, headers_unfinished free]

/-! ## Reading messages -/

/-- The input ends, between messages or in one. -/
def Stop.IsEnd (stop : Stop) : Prop := stop = .finished ∨ stop = .cutShort

theorem length_write_pos (message : Bytes) : 0 < (write message).length := by
  have name : (utf8 "Content-Length: ").length = 16 := by decide
  simp only [write, List.length_append, name]
  omega

/-- A frame is read as its message, whatever follows. -/
theorem read_write {message : Bytes} (fits : message.length ≤ maxLength) (rest : Bytes) :
    read (write message ++ rest) = .ok (message, rest) := by
  have enough : 2 ≤ (write message ++ rest).length + 1 := by
    have := length_write_pos message
    rw [List.length_append]
    omega
  rw [read]
  rw [write_eq, List.append_assoc] at enough ⊢
  rw [headers_header fits enough]
  simp [bind, Except.bind, pure, Except.pure]

/-- From a frame that is cut off no message is read. -/
theorem read_cut {message t : Bytes} (fits : message.length ≤ maxLength) (front : t <+: write message)
    (short : t.length < (write message).length) : ∃ stop, read t = .error stop ∧ stop.IsEnd := by
  rw [write_eq] at front short
  obtain ⟨inside, cut⟩ | ⟨part, -, rfl⟩ := front_cases front
  · refine ⟨.finished, ?_, .inl rfl⟩
    rw [read, headers_cut fits _ inside cut]
    rfl
  · -- the header is whole, and it announces more than there is
    have missing : ¬ message.length ≤ part.length := by simpa using short
    have enough : 2 ≤ (header message.length ++ part).length + 1 := by
      rw [header_eq]
      simp
      omega
    simp only [read, headers_header fits enough, bind, Except.bind, ge_iff_le, if_neg missing]
    cases part with
    | nil => exact ⟨.finished, rfl, .inl rfl⟩
    | cons b part => exact ⟨.cutShort, rfl, .inr rfl⟩

/-! ## Streams -/

/-- Where the frame of message number `i` ends in the stream of all messages. -/
def endOf (messages : List Bytes) (i : Nat) : Nat := ((messages.take (i + 1)).flatMap write).length

/-- The messages whose frames lie wholly in the first `size` bytes of the stream. -/
def within (size : Nat) (messages : List Bytes) : List Bytes :=
  (messages.zipIdx.filter fun (_, i) => endOf messages i ≤ size).map Prod.fst

theorem endOf_zero (message : Bytes) (messages : List Bytes) :
    endOf (message :: messages) 0 = (write message).length := by
  simp [endOf]

theorem endOf_succ (message : Bytes) (messages : List Bytes) (i : Nat) :
    endOf (message :: messages) (i + 1) = (write message).length + endOf messages i := by
  simp [endOf]

theorem length_write_le_endOf (message : Bytes) (messages : List Bytes) (i : Nat) :
    (write message).length ≤ endOf (message :: messages) i := by
  cases i with
  | zero => exact (endOf_zero message messages).ge
  | succ i =>
      rw [endOf_succ]
      exact Nat.le_add_right _ _

theorem within_cut {message : Bytes} {size : Nat} (short : size < (write message).length) (messages : List Bytes) :
    within size (message :: messages) = [] := by
  have outside : ∀ i, ¬ endOf (message :: messages) i ≤ size := fun i =>
    Nat.not_le.mpr (Nat.lt_of_lt_of_le short (length_write_le_endOf message messages i))
  simp [within, outside]

theorem within_append (message : Bytes) (messages : List Bytes) (size : Nat) :
    within ((write message).length + size) (message :: messages) = message :: within size messages := by
  have first : endOf (message :: messages) 0 ≤ (write message).length + size := by
    rw [endOf_zero]
    exact Nat.le_add_right _ _
  rw [within, List.zipIdx_cons, List.filter_cons_of_pos (by simpa using first), List.map_cons, List.zipIdx_succ,
    List.filter_map, List.map_map, within]
  congr 1
  simp only [Function.comp_def, endOf_succ, Nat.add_le_add_iff_left]

/-- From any front of a stream of frames exactly the messages are read whose frames lie wholly in it, and then
the input ends. -/
theorem readAll_front_of_stream (messages : List Bytes) (fits : ∀ m ∈ messages, m.length ≤ maxLength) (t : Bytes)
    (front : t <+: messages.flatMap write) (fuel : Nat) (enough : t.length < fuel) :
    ∃ stop, readAll fuel t = (within t.length messages, stop) ∧ stop.IsEnd := by
  induction messages generalizing t fuel with
  | nil =>
      obtain rfl : t = [] := List.prefix_nil.mp front
      cases fuel with
      | zero => exact absurd enough (Nat.not_lt_zero _)
      | succ fuel => exact ⟨.finished, rfl, .inl rfl⟩
  | cons message messages ih =>
      have small := fits message List.mem_cons_self
      cases fuel with
      | zero => exact absurd enough (Nat.not_lt_zero _)
      | succ fuel =>
          -- the front ends in the first frame, or it holds that frame and a front of the others
          obtain ⟨inside, short⟩ | ⟨rest, behind, rfl⟩ := front_cases (List.flatMap_cons ▸ front)
          · obtain ⟨stop, cut, ends⟩ := read_cut small inside short
            refine ⟨stop, ?_, ends⟩
            rw [readAll, cut, within_cut short]
          · have positive := length_write_pos message
            rw [List.length_append] at enough ⊢
            obtain ⟨stop, others, ends⟩ :=
              ih (fun m member => fits m (List.mem_cons_of_mem _ member)) rest behind fuel (by omega)
            refine ⟨stop, ?_, ends⟩
            rw [readAll, read_write small, within_append]
            simp only [others]

/-- A message that looks like a header and an empty one are read; of the third only the last byte is missing. -/
theorem readAll_front_of_stream_last_byte :
    let messages := [utf8 "\r\nContent-Length: 1\r\n\r\n", [], utf8 "ab"]
    let t := (messages.flatMap write).dropLast
    ∃ stop, readAll 100 t = (messages.take 2, stop) ∧ stop.IsEnd := by
  intro messages t
  have whole : within t.length messages = messages.take 2 := by decide
  have read := readAll_front_of_stream messages (by decide) t (List.dropLast_prefix _) 100 (by decide)
  rwa [whole] at read

end Colloquy.Frame
