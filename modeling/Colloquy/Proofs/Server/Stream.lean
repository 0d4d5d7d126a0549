import Colloquy.Proofs.Server.Framing
import Colloquy.Proofs.Server.Stopping

/-! # Sessions over a stream

A session is a stream of frames. Frames need not be written as the server writes them: other headers may stand beside
the length, in any order. However the messages in them look, they are handled one after the other to the end of the
stream, or up to one that stops the server.
-/

namespace Colloquy

namespace Frame

/-- What a header line says, without the carriage returns at its end. -/
def content (line : Bytes) : Bytes := Bytes.trimEndWhile line (· == Bytes.cr)

/-- A header line before its line feed. -/
structure Line where
  text : Bytes
  /-- The length that it gives, if it is the header for it. -/
  given : Option Nat
  unbroken : Bytes.lf ∉ text
  filled : content text ≠ []
  reads : lengthOf (content text) = .ok given

/-- A complete frame: header lines, an empty line, and a message of as many bytes as the last length says. -/
structure Complete where
  lines : List Line
  blank : Bytes
  message : Bytes
  unbroken : Bytes.lf ∉ blank
  empty : content blank = []
  measured : (lines.filterMap Line.given).getLast? = some message.length

def headerBytes (lines : List Line) : Bytes := lines.flatMap fun l => l.text ++ [Bytes.lf]

def Complete.bytes (c : Complete) : Bytes := headerBytes c.lines ++ (c.blank ++ Bytes.lf :: c.message)

/-! ## Reading a frame -/

theorem getLast?_filterMap_cons (l : Line) (lines : List Line) :
    ((l :: lines).filterMap Line.given).getLast? = (lines.filterMap Line.given).getLast?.or l.given := by
  cases given : l.given with
  | none => rw [List.filterMap_cons_none given, Option.or_none]
  | some n =>
      rw [List.filterMap_cons_some given, List.getLast?_cons]
      cases (lines.filterMap Line.given).getLast? <;> rfl

theorem length_le_headerBytes (lines : List Line) : lines.length ≤ (headerBytes lines).length := by
  induction lines with
  | nil => exact Nat.zero_le _
  | cons l lines ih =>
      rw [headerBytes, List.flatMap_cons, ← headerBytes]
      simp only [List.length_cons, List.length_append]
      omega

theorem headers_filled (l : Line) (fuel : Nat) (length : Option Nat) (rest : Bytes) :
    headers (fuel + 1) length (l.text ++ Bytes.lf :: rest) = headers fuel (l.given.or length) rest := by
  have filled : (Bytes.trimEndWhile l.text (· == Bytes.cr)).isEmpty = false :=
    List.isEmpty_eq_false_iff.mpr l.filled
  have reads : lengthOf (Bytes.trimEndWhile l.text (· == Bytes.cr)) = .ok l.given := l.reads
  simp only [headers, Bytes.cut?_append l.unbroken, filled, reads]
  rfl

theorem headers_empty {blank : Bytes} (unbroken : Bytes.lf ∉ blank) (empty : content blank = []) (fuel : Nat)
    (length : Option Nat) (rest : Bytes) :
    headers (fuel + 1) length (blank ++ Bytes.lf :: rest) = .ok (length, rest) := by
  have empty : Bytes.trimEndWhile blank (· == Bytes.cr) = [] := empty
  simp only [headers, Bytes.cut?_append unbroken, empty]
  rfl

theorem headers_lines (lines : List Line) {blank : Bytes} (unbroken : Bytes.lf ∉ blank) (empty : content blank = [])
    (rest : Bytes) {fuel : Nat} (enough : lines.length < fuel) (length : Option Nat) :
    headers fuel length (headerBytes lines ++ (blank ++ Bytes.lf :: rest)) =
      .ok ((lines.filterMap Line.given).getLast?.or length, rest) := by
  obtain ⟨fuel, rfl⟩ := Nat.exists_eq_add_of_lt (Nat.zero_lt_of_lt enough)
  rw [Nat.zero_add] at enough ⊢
  induction lines generalizing fuel length with
  | nil => exact headers_empty unbroken empty fuel length rest
  | cons l lines ih =>
      cases fuel with
      | zero => exact absurd enough (by simp)
      | succ fuel =>
          have first : headerBytes (l :: lines) ++ (blank ++ Bytes.lf :: rest) =
              l.text ++ Bytes.lf :: (headerBytes lines ++ (blank ++ Bytes.lf :: rest)) := by
            simp [headerBytes]
          rw [first, headers_filled, ih _ _ (Nat.lt_of_succ_lt_succ enough), getLast?_filterMap_cons, Option.or_assoc]

theorem Complete.length_bytes_pos (c : Complete) : 0 < c.bytes.length :=
  List.length_pos_of_mem (a := Bytes.lf) (by simp [bytes])

/-- A complete frame is read as its message, whatever follows. -/
theorem Complete.read_bytes (c : Complete) (rest : Bytes) : read (c.bytes ++ rest) = .ok (c.message, rest) := by
  have enough : c.lines.length < (c.bytes ++ rest).length + 1 := by
    have := length_le_headerBytes c.lines
    simp only [bytes, List.length_append]
    omega
  have split : c.bytes ++ rest = headerBytes c.lines ++ (c.blank ++ Bytes.lf :: (c.message ++ rest)) := by
    simp [bytes]
  rw [read]
  rw [split] at enough ⊢
  rw [headers_lines c.lines c.unbroken c.empty _ enough, c.measured]
  simp [bind, Except.bind, pure, Except.pure]

/-! ## Frames as they are written -/

theorem content_lengthLine (size : Nat) : content (lengthLine size ++ [Bytes.cr]) = lengthLine size :=
  trimEndWhile_line size

theorem lengthLine_ne_nil (size : Nat) : lengthLine size ≠ [] := by
  have name : utf8 "Content-Length: " ≠ [] := by decide
  simp [lengthLine, name]

def Line.ofLength (size : Nat) (fits : size ≤ maxLength) : Line where
  text := lengthLine size ++ [Bytes.cr]
  given := some size
  unbroken := lf_not_mem_line size
  filled := (content_lengthLine size).symm ▸ lengthLine_ne_nil size
  reads := (content_lengthLine size).symm ▸ lengthOf_lengthLine fits

theorem lf_not_mem_cr : Bytes.lf ∉ [Bytes.cr] := by decide

theorem content_cr : content [Bytes.cr] = [] := by decide

/-- The frame in which a message is written. -/
def Complete.ofMessage (message : Bytes) (fits : message.length ≤ maxLength) : Complete where
  lines := [.ofLength message.length fits]
  blank := [Bytes.cr]
  message
  unbroken := lf_not_mem_cr
  empty := content_cr
  measured := rfl

end Frame

namespace Server

open Colloquy.Frame Message

/-- Messages that arrive one after the other, on a host that stays as it is. -/
def arrivals (host : Host) (frames : List Complete) : List Event := frames.map fun c => ⟨host, .message c.message⟩

theorem arrivals_concat (host : Host) (frames : List Complete) (c : Complete) :
    arrivals host (frames ++ [c]) = arrivals host frames ++ [⟨host, .message c.message⟩] :=
  List.map_append

/-- Whether the server stops at a frame. -/
def stopsAt (c : Complete) : Bool := (heard? c.message).any isLast

/-! ## Running -/

theorem stop_receive_eq_none {c : Complete} (goesOn : stopsAt c = false) (s : Server) (host : Host) (f : Features) :
    (s.receive host c.message f).2 = none := by
  rw [stop_receive]
  cases heard : heard? c.message with
  | none => rfl
  | some m =>
      have other : m.isLast = false := by simpa [stopsAt, heard] using goesOn
      simp [stop?, other]

theorem run_goesOn {host : Host} {f : Features} {s : Server} {c : Complete} (goesOn : stopsAt c = false) (fuel : Nat)
    (rest : Bytes) :
    run host f (fuel + 1) s (c.bytes ++ rest) = run host f fuel (step f s ⟨host, .message c.message⟩) rest := by
  have stop := stop_receive_eq_none goesOn s host f
  simp only [run, c.read_bytes]
  split
  · rename_i stopped
    simp [stopped] at stop
  · rename_i same
    simp only [step, same]

/-- Frames that do not stop the server are handled one by one. -/
theorem run_append {host : Host} {f : Features} {frames : List Complete} (goesOn : ∀ c ∈ frames, stopsAt c = false)
    (fuel : Nat) (s : Server) (rest : Bytes) :
    run host f (fuel + frames.length) s (frames.flatMap Complete.bytes ++ rest) =
      run host f fuel (s.after (arrivals host frames) f) rest := by
  induction frames generalizing s with
  | nil => rfl
  | cons c frames ih =>
      rw [List.flatMap_cons, List.append_assoc, List.length_cons, ← Nat.add_assoc, run_goesOn (goesOn c (by simp)),
        ih fun d member => goesOn d (by simp [member])]
      rfl

theorem length_le_bytes (frames : List Complete) : frames.length ≤ (frames.flatMap Complete.bytes).length := by
  induction frames with
  | nil => exact Nat.zero_le _
  | cons c frames ih =>
      have := c.length_bytes_pos
      simp only [List.flatMap_cons, List.length_append, List.length_cons]
      omega

/-- Up to some frame a session goes its way, and there is enough left for the others. -/
theorem runAll_append {host : Host} {f : Features} {frames : List Complete} (goesOn : ∀ c ∈ frames, stopsAt c = false)
    (s : Server) (rest : Bytes) :
    ∃ fuel, s.runAll host (frames.flatMap Complete.bytes ++ rest) f =
      run host f (fuel + 1) (s.after (arrivals host frames) f) rest := by
  have small := length_le_bytes frames
  obtain ⟨fuel, enough⟩ := Nat.exists_eq_add_of_le
    (Nat.succ_le_succ (Nat.le_trans small (Nat.le_add_right _ rest.length)))
  refine ⟨fuel, ?_⟩
  rw [runAll, List.length_append, ← run_append goesOn]
  congr 1
  omega

/-- One of the frames tells the server to shut down. -/
def announces (frames : List Complete) : Bool :=
  frames.any fun c => (heard? c.message).any (·.method == utf8 "shutdown")

theorem shutdownRequested_arrivals (host : Host) (f : Features) (s : Server) (frames : List Complete) :
    (s.after (arrivals host frames) f).shutdownRequested = (s.shutdownRequested || announces frames) := by
  rw [shutdownRequested_after, arrivals, List.any_map]
  rfl

theorem run_stops {host : Host} {f : Features} {s : Server} {c : Complete} {stop : ServerStop}
    (stops : (s.receive host c.message f).2 = some stop) (fuel : Nat) (rest : Bytes) :
    run host f (fuel + 1) s (c.bytes ++ rest) = (step f s ⟨host, .message c.message⟩, .stopped stop) := by
  simp only [run, c.read_bytes]
  split
  · rename_i same
    rw [same] at stops
    simp only [step, same, Option.some.inj stops]
  · rename_i same
    simp [same] at stops

/-- Frames are handled to the end of the stream, whatever is in them, unless one tells the server to exit or carries a
    notice about a document that cannot be read. The server stops there, after an exit in order if a message before it
    said so. What else happens between messages makes no difference. Where there is no message in a payload, or one that
    cannot be read, the server learns nothing from it about documents and settings. -/
theorem stopped_by_exit_or_unreadable_notice (s : Server) (host : Host) (f : Features) :
    (∀ frames : List Complete, (∀ c ∈ frames, stopsAt c = false) →
      s.runAll host (frames.flatMap Complete.bytes) f = (s.after (arrivals host frames) f, .stream .finished)) ∧
    (∀ (before : List Complete) (c : Complete) (m : Message) (rest : Bytes), (∀ b ∈ before, stopsAt b = false) →
      heard? c.message = some m → m.isLast = true →
      s.runAll host (before.flatMap Complete.bytes ++ (c.bytes ++ rest)) f =
        (s.after (arrivals host (before ++ [c])) f,
          .stopped (m.reason (s.shutdownRequested || announces before)))) ∧
    (∀ (es : List Event) (payload : Bytes), ((s.after es f).receive host payload f).2 =
      (heard? payload).bind (stop? (s.shutdownRequested || es.any Event.isShutdown))) ∧
    ∀ payload : Bytes, (∀ m, heard? payload = some m → m.isReadable = false) →
      Spared s (s.receive host payload f).1 := by
  refine ⟨?_, ?_, ?_, fun payload unreadable => spared_receive unreadable s host f⟩
  · intro frames goesOn
    obtain ⟨fuel, handled⟩ := runAll_append goesOn s []
    rw [List.append_nil] at handled
    exact handled
  · intro before c m rest goesOn heard last
    obtain ⟨fuel, handled⟩ := runAll_append goesOn s (c.bytes ++ rest)
    have stops : ((s.after (arrivals host before) f).receive host c.message f).2 =
        some (m.reason (s.shutdownRequested || announces before)) := by
      rw [stop_receive, heard, Option.bind_some, stop?, if_pos last, shutdownRequested_arrivals]
    rw [handled, run_stops stops, arrivals_concat, after_concat]
  · intro es payload
    rw [stop_receive, shutdownRequested_after]

/-- Payloads that are no messages, and messages that are of no use. -/
def junk : List Complete :=
  [.ofMessage (utf8 "\x7b") (by decide +kernel),
    .ofMessage (utf8 "[1]") (by decide +kernel),
    .ofMessage (written "unknown" [("params", .ofNat 5)]) (by decide +kernel),
    .ofMessage (written "textDocument/hover" [("id", .ofNat 1), ("params", .ofNat 5)]) (by decide +kernel),
    .ofMessage (written "workspace/didChangeConfiguration" [("params", .array [])]) (by decide +kernel)]

/-- Junk is passed over, and an exit behind it is one that was not announced. -/
theorem stopped_by_exit_or_unreadable_notice_junk :
    let s := start Settings.default ⟨[], false⟩
    let host : Host := ⟨.empty, utf8 "/", []⟩
    let exit : Complete := .ofMessage (written "exit" []) (by decide +kernel)
    (s.runAll host (junk.flatMap Complete.bytes)).2 = .stream .finished ∧
    (s.runAll host (junk.flatMap Complete.bytes ++ (exit.bytes ++ utf8 "Content"))).2 =
      .stopped .exitWithoutShutdown := by
  intro s host exit
  have goesOn : ∀ c ∈ junk, stopsAt c = false := by decide +kernel
  obtain ⟨all, stops, -⟩ := stopped_by_exit_or_unreadable_notice s host {}
  refine ⟨by rw [all junk goesOn], ?_⟩
  have exits : (heard? exit.message).any (fun m => m.isLast && m.method == utf8 "exit") = true := by decide +kernel
  obtain ⟨m, heard, exits⟩ := (Option.any_eq_true ..).mp exits
  rw [Bool.and_eq_true, beq_iff_eq] at exits
  rw [stops junk exit m _ goesOn heard exits.1, reason, if_pos exits.2]
  decide +kernel

/-- A notice that cannot be read ends a session in which nobody asks for it, and what follows is not handled. -/
theorem unreadable_notice_ends_session :
    let frames : List Complete :=
      [.ofMessage (written "textDocument/didOpen" [("params", .ofNat 5)]) (by decide),
        .ofMessage (written "shutdown" [("id", .ofNat 1)]) (by decide)]
    let ended := (start Settings.default ⟨[], false⟩).runAll ⟨.empty, utf8 "/", []⟩ (frames.flatMap Complete.bytes)
    (∀ c ∈ frames, (heard? c.message).all (·.method != utf8 "exit") = true) ∧
    ended.2 = .stopped (.unreadable false) ∧ ended.1.sent.length = 0 := by
  decide

end Server

end Colloquy
