import Colloquy.Proofs.Server.Publishing

/-! # Sweeps among messages

Messages are handled while documents are being checked. A session is a server with the sweeps that it has begun and
the schedule that a timer stands for; whatever happens in between, at any half of any sweep, is a turn. When nothing is
under way any more, the editor is up to date about every document that no closing has cut off from the latest sweep.
-/

namespace Colloquy

structure Session where
  server : Server
  /-- The schedule for which a sweep is to begin. -/
  timer : Option Nat := none
  /-- The sweeps that have begun, those that have ended included. -/
  sweeps : List Sweep := []

namespace Session

inductive Turn where
  | event (e : Server.Event)
  /-- The timer goes off. -/
  | alarm
  /-- A sweep takes its next half. -/
  | advance (host : Host) (i : Nat)

def Turn.isShutdown : Turn → Bool
  | .event e => e.isShutdown
  | _ => false

/-- Something has happened to the server. Whatever schedules a check sets the timer anew. -/
def told (x : Session) (s : Server) : Session :=
  { x with server := s, timer := if s.schedule = x.server.schedule then x.timer else some s.schedule }

/-- A sweep begins, if the timer still stands for the latest schedule. -/
def alarm (x : Session) : Session :=
  if x.timer = some x.server.schedule then
    let (s, w) := Sweep.start x.server
    { server := s, sweeps := w :: x.sweeps }
  else { x with timer := none }

def advance (x : Session) (host : Host) (i : Nat) : Session :=
  match x.sweeps[i]? with
  | none => x
  | some w =>
    let (s, w) := w.advance host x.server
    { x with server := s, sweeps := x.sweeps.set i w }

/-- Checks take turns of their own, so they are no events here. -/
def next (f : Server.Features) (x : Session) : Turn → Session
  | .event ⟨_, .check _⟩ => x
  | .event e =>
    let x := x.told (x.server.step f e)
    if e.isShutdown then { x with timer := none } else x
  | .alarm => x.alarm
  | .advance host i => x.advance host i

def after (f : Server.Features) (x : Session) (turns : List Turn) : Session := turns.foldl (next f) x

/-- No sweep is to begin, and none of the latest schedule is under way. -/
def IsIdle (x : Session) : Prop :=
  x.timer = none ∧ ∀ w ∈ x.sweeps, w.schedule = x.server.schedule → w.ended = true

instance (x : Session) : Decidable x.IsIdle := inferInstanceAs (Decidable (_ ∧ _))

end Session

/-! ## What a sweep of the latest schedule has done -/

/-- Documents that are not left are current, and those that are left have not been changed, only closed. -/
structure Sweep.Tracks (s : Server) (w : Sweep) : Prop where
  unchanged : ∀ d ∈ w.left, ∀ e ∈ s.documents, e.uri = d.uri → e = d
  current : ∀ d ∈ s.documents, d ∈ w.left ∨ s.IsCurrent d
  ended : w.ended = true → ∀ d rest, w.left = d :: rest → s.document? d.uri = none

/-- What was found belongs to the first document. -/
def Sweep.Finds (w : Sweep) : Prop :=
  ∀ findings, w.found = some findings → ∃ d rest, w.left = d :: rest ∧ Server.Computed d findings

structure Session.Sound (x : Session) : Prop where
  coherent : x.server.Coherent
  timer : ∀ n, x.timer = some n → n = x.server.schedule
  begun : x.timer = none → x.server.schedule = 0 ∨ x.server.schedule ∈ x.sweeps.map Sweep.schedule
  past : ∀ w ∈ x.sweeps, w.schedule ≤ x.server.schedule
  finds : ∀ w ∈ x.sweeps, w.Finds
  tracks : ∀ w ∈ x.sweeps, w.schedule = x.server.schedule → w.Tracks x.server

open Server

theorem Server.document?_eq_none_iff {s : Server} {uri : Bytes} :
    s.document? uri = none ↔ ∀ d ∈ s.documents, d.uri ≠ uri := by
  simp [Option.eq_none_iff_forall_ne_some, document?_eq_some_iff]

/-- Documents may be closed, and those that stay open stay current. -/
theorem Sweep.Tracks.calm {s s' : Server} {w : Sweep} (tracks : w.Tracks s) (calm : Calm s s') : w.Tracks s' where
  unchanged := fun d left e member => tracks.unchanged d left e (calm e member).1
  current := fun d member => (tracks.current d (calm d member).1).imp_right (calm d member).2
  ended := fun ended d rest left => by
    have closed := document?_eq_none_iff.mp (tracks.ended ended d rest left)
    exact document?_eq_none_iff.mpr fun e member => closed e (calm e member).1

/-- A sweep of the latest schedule that ends before the last document has come upon one that was closed. -/
theorem Sweep.Tracks.stopped {s : Server} {w : Sweep} (tracks : w.Tracks s) (coherent : s.Coherent)
    (latest : w.schedule = s.schedule) (ends : w.Ends s) : Sweep.Tracks s { w with ended := true } := by
  refine ⟨tracks.unchanged, tracks.current, fun _ d rest left => document?_eq_none_iff.mpr fun e member same => ?_⟩
  obtain empty | old | ⟨first, more, starts, changed⟩ := ends
  · exact absurd (left.symm.trans empty) (List.cons_ne_nil d rest)
  · exact old latest
  · obtain rfl := List.head_eq_of_cons_eq (starts.symm.trans left)
    obtain rfl := tracks.unchanged first (by simp [starts]) e member same
    simp [isUnchanged_of_mem_documents coherent.keyed member] at changed

theorem Sweep.Tracks.announced {s s' : Server} {w : Sweep} {d : OpenDocument} {rest : List OpenDocument}
    (tracks : w.Tracks s) (goesOn : w.ended = false) (left : w.left = d :: rest)
    (same : s'.documents = s.documents) (current : ∀ e ∈ s.documents, e = d ∨ s.IsCurrent e → s'.IsCurrent e) :
    Sweep.Tracks s' { w with left := rest, found := none } where
  unchanged := fun c later e member => tracks.unchanged c (by simp [left, later]) e (same ▸ member)
  current := by
    intro e member
    rw [same] at member
    obtain listed | before := tracks.current e member
    · rw [left] at listed
      obtain rfl | later := List.mem_cons.mp listed
      · exact .inr (current e member (.inl rfl))
      · exact .inl later
    · exact .inr (current e member (.inr before))
  ended := fun ended => by simp [goesOn] at ended

namespace Session.Sound

theorem start {s : Server} (fresh : s.Fresh) : Sound { server := s } where
  coherent := fresh.coherent
  timer := by simp
  begun := fun _ => .inl fresh.schedule
  past := by simp
  finds := by simp
  tracks := by simp

theorem told {x : Session} (sound : x.Sound) {s : Server} (coherent : s.Coherent)
    (rises : x.server.schedule ≤ s.schedule) (calm : s.schedule = x.server.schedule → Calm x.server s) :
    (x.told s).Sound where
  coherent := coherent
  timer := by
    intro n set
    unfold Session.told at set ⊢
    split at set
    · rename_i same
      exact (sound.timer n set).trans same.symm
    · exact (Option.some.inj set).symm
  begun := by
    intro unset
    unfold Session.told at unset ⊢
    split at unset
    · rename_i same
      dsimp only
      rw [same]
      exact sound.begun unset
    · cases unset
  past := fun w member => Nat.le_trans (sound.past w member) rises
  finds := sound.finds
  tracks := by
    intro w member latest
    have same : s.schedule = x.server.schedule := Nat.le_antisymm (latest ▸ sound.past w member) rises
    exact (sound.tracks w member (latest.trans same)).calm (calm same)

theorem alarm {x : Session} (sound : x.Sound) : x.alarm.Sound := by
  unfold Session.alarm
  split
  · refine ⟨sound.coherent.traced _, by simp, fun _ => .inr List.mem_cons_self,
      fun w member => ?_, fun w member => ?_, fun w member latest => ?_⟩
    · obtain rfl | before := List.mem_cons.mp member
      · exact Nat.le_refl _
      · exact sound.past w before
    · obtain rfl | before := List.mem_cons.mp member
      · exact fun findings found => by cases found
      · exact sound.finds w before
    · obtain rfl | before := List.mem_cons.mp member
      · refine ⟨fun d left e member same => ?_, fun d member => .inl (List.mem_mergeSort.mpr member),
          fun ended => by cases ended⟩
        exact eq_of_mem_documents member (List.mem_mergeSort.mp left) same
      · exact (sound.tracks w before latest).calm fun d member => ⟨member, IsCurrent.of_last rfl⟩
  · rename_i other
    have unset : x.timer = none := by
      cases set : x.timer with
      | none => rfl
      | some n => exact absurd (set.trans (congrArg some (sound.timer n set))) other
    have same : { x with timer := none } = x := by rw [← unset]
    rwa [same]

/-- A sweep takes a half that leaves what is known of the others. -/
theorem replace {x : Session} (sound : x.Sound) {i : Nat} {w w' : Sweep} {s : Server} (there : x.sweeps[i]? = some w)
    (coherent : s.Coherent) (same : s.schedule = x.server.schedule) (kept : w'.schedule = w.schedule)
    (calm : Calm x.server s) (finds : w'.Finds)
    (tracks : w.schedule = x.server.schedule → w.Tracks x.server → w'.Tracks s) :
    Sound { x with server := s, sweeps := x.sweeps.set i w' } := by
  have here := List.mem_of_getElem? there
  have schedules : (x.sweeps.set i w').map Sweep.schedule = x.sweeps.map Sweep.schedule := by
    obtain ⟨inside, rfl⟩ := List.getElem?_eq_some_iff.mp there
    rw [List.map_set, kept, ← List.getElem_map Sweep.schedule (h := by simpa using inside)]
    exact List.set_getElem_self _
  refine ⟨coherent, fun n set => (sound.timer n set).trans same.symm, ?_, fun v member => ?_, fun v member => ?_,
    fun v member latest => ?_⟩
  · rw [schedules, same]
    exact sound.begun
  · rw [same]
    obtain before | rfl := List.mem_or_eq_of_mem_set member
    · exact sound.past v before
    · exact kept ▸ sound.past w here
  · obtain before | rfl := List.mem_or_eq_of_mem_set member
    · exact sound.finds v before
    · exact finds
  · rw [same] at latest
    obtain before | rfl := List.mem_or_eq_of_mem_set member
    · exact (sound.tracks v before latest).calm calm
    · exact tracks (kept ▸ latest) (sound.tracks w here (kept ▸ latest))

theorem advance {x : Session} (sound : x.Sound) (host : Host) (i : Nat) : (x.advance host i).Sound := by
  unfold Session.advance
  split
  · exact sound
  · rename_i w there
    have here := List.mem_of_getElem? there
    have advanced := w.advanced_advance host x.server
    generalize w.advance host x.server = p at advanced
    cases advanced with
    | rested =>
        exact sound.replace there sound.coherent rfl rfl (fun d member => ⟨member, id⟩) (sound.finds w here) fun _ => id
    | stopped t ends =>
        have calm : Calm x.server { x.server with tracer := t } := fun d member => ⟨member, IsCurrent.of_last rfl⟩
        refine sound.replace there (sound.coherent.traced t) rfl rfl calm (sound.finds w here) fun latest tracks => ?_
        exact (tracks.stopped sound.coherent latest ends).calm calm
    | @computed d rest goesOn left =>
        obtain ⟨aside, same⟩ := aside_diagnose x.server host d
        have calm := aside.steady.calm
        refine sound.replace there (sound.coherent.steady aside.steady) same rfl calm ?_ fun _ tracks => ?_
        · rintro findings ⟨⟩
          exact ⟨d, rest, left, computed_diagnose sound.coherent.cache host d⟩
        · have tracks := tracks.calm calm
          exact ⟨tracks.unchanged, tracks.current, tracks.ended⟩
    | @announced d rest findings goesOn left found unchanged =>
        have member := mem_documents_of_isUnchanged sound.coherent.keyed unchanged
        obtain ⟨first, more, starts, computed⟩ := sound.finds w here findings found
        obtain rfl := List.head_eq_of_cons_eq (starts.symm.trans left)
        have current : ∀ e ∈ x.server.documents, e = first ∨ x.server.IsCurrent e →
            (x.server.announce first findings).IsCurrent e := fun e =>
          sound.coherent.isCurrent_announce computed member
        refine sound.replace there (sound.coherent.announce member findings) rfl rfl ?_ ?_ fun _ tracks => ?_
        · exact fun e stays => ⟨stays, fun before => current e stays (.inr before)⟩
        · exact fun findings none => by cases none
        · exact tracks.announced goesOn left rfl current

theorem next {x : Session} (sound : x.Sound) (f : Features) {t : Turn} (goesOn : t.isShutdown = false) :
    (x.next f t).Sound := by
  cases t with
  | event e =>
      have stepped := stepped f x.server e
      have told : (x.told (x.server.step f e)).Sound :=
        sound.told (sound.coherent.stepped stepped) stepped.schedule_le (stepped.calm sound.coherent goesOn)
      have goesOn : e.isShutdown = false := goesOn
      obtain ⟨host, cause⟩ := e
      cases cause with
      | check => exact sound
      | message | models =>
          simp only [Session.next, goesOn, Bool.false_eq_true, if_false]
          exact told
  | alarm => exact sound.alarm
  | advance host i => exact sound.advance host i

theorem after {x : Session} (sound : x.Sound) (f : Features) {turns : List Turn}
    (goesOn : ∀ t ∈ turns, t.isShutdown = false) : (x.after f turns).Sound := by
  induction turns generalizing x with
  | nil => exact sound
  | cons t turns ih =>
      refine ih (sound.next f (goesOn t List.mem_cons_self)) fun t member => ?_
      exact goesOn t (List.mem_cons_of_mem _ member)

end Session.Sound

namespace Session

/-- When nothing is under way, a document is current unless the latest sweep came upon a closed document before it.
    Every document is current if the sweep came to its end. -/
theorem current_unless_behind_closed (f : Features) {s : Server} (fresh : s.Fresh) {turns : List Turn}
    (goesOn : ∀ t ∈ turns, t.isShutdown = false) {x : Session} (reached : Session.after f { server := s } turns = x)
    (idle : x.IsIdle) {d : OpenDocument} (member : d ∈ x.server.documents) :
    x.server.IsCurrent d ∨ ∃ w ∈ x.sweeps, ∃ c rest, w.schedule = x.server.schedule ∧ w.left = c :: rest ∧
      x.server.document? c.uri = none ∧ d ∈ rest := by
  have sound : x.Sound := reached ▸ (Sound.start fresh).after f goesOn
  obtain never | begun := sound.begun idle.1
  · rw [sound.coherent.scheduled never] at member
    exact absurd member List.not_mem_nil
  · obtain ⟨w, there, latest⟩ := List.mem_map.mp begun
    have tracks := sound.tracks w there latest
    obtain listed | current := tracks.current d member
    · cases left : w.left with
      | nil =>
          rw [left] at listed
          exact absurd listed List.not_mem_nil
      | cons c rest =>
          have closed := tracks.ended (idle.2 w there latest) c rest left
          rw [left] at listed
          obtain rfl | behind := List.mem_cons.mp listed
          · exact absurd rfl (document?_eq_none_iff.mp closed d member)
          · exact .inr ⟨w, there, c, rest, latest, left, closed, behind⟩
    · exact .inl current

/-! ## Two documents -/

theorem alarm_eq {x : Session} (set : x.timer = some x.server.schedule)
    (sorted : x.server.sortedDocuments = x.server.documents) :
    x.alarm = { server := (Sweep.start x.server).1
                sweeps := { (Sweep.start x.server).2 with left := x.server.documents } :: x.sweeps } := by
  rw [alarm, if_pos set, ← sorted]
  rfl

/-- A session at its start. -/
def begun : Session := { server := Server.start Settings.default ⟨[], false⟩ }

/-- Two documents are opened. -/
def openTwo : List Turn :=
  [.event (.ofMessage "textDocument/didOpen" [Message.about "file:///b" [("text", .str "b")]]),
    .event (.ofMessage "textDocument/didOpen" [Message.about "file:///a" [("text", .str "a")]])]

/-- The session in which a sweep of two documents has begun. -/
def sweepOfTwo : Session :=
  let s := (begun.after {} openTwo).server
  { server := (Sweep.start s).1, sweeps := [{ (Sweep.start s).2 with left := s.documents }] }

theorem after_openTwo (turns : List Turn) :
    begun.after {} (openTwo ++ .alarm :: turns) = sweepOfTwo.after {} turns := by
  have sorted : (begun.after {} openTwo).server.sortedDocuments = (begun.after {} openTwo).server.documents :=
    List.mergeSort_of_pairwise (by decide +kernel)
  have set : (begun.after {} openTwo).timer = some (begun.after {} openTwo).server.schedule := by decide +kernel
  have none : (begun.after {} openTwo).sweeps = [] := rfl
  have started := alarm_eq set sorted
  rw [none] at started
  rw [after, List.foldl_append, List.foldl_cons]
  exact congrArg (List.foldl (next {}) · turns) started

/-- The two documents are checked. -/
def checkTwo : List Turn := List.replicate 5 (.advance ⟨.empty, utf8 "/", []⟩ 0)

/-- A sweep that nothing disturbs brings the editor up to date about both documents. -/
theorem current_unless_behind_closed_undisturbed :
    ∃ x, begun.after {} (openTwo ++ .alarm :: checkTwo) = x ∧ x.IsIdle ∧ x.server.documents.length = 2 ∧
      ∀ d ∈ x.server.documents, x.server.IsCurrent d := by
  have reached := after_openTwo checkTwo
  have goesOn : ∀ t ∈ openTwo ++ .alarm :: checkTwo, t.isShutdown = false := by decide
  have ends : (sweepOfTwo.after {} checkTwo).IsIdle ∧ (sweepOfTwo.after {} checkTwo).server.documents.length = 2 ∧
      ∀ w ∈ (sweepOfTwo.after {} checkTwo).sweeps, w.left.isEmpty = true := by decide
  obtain ⟨idle, two, through⟩ := ends
  refine ⟨_, reached, idle, two, fun d member => ?_⟩
  obtain current | ⟨w, there, c, rest, -, left, -⟩ :=
    current_unless_behind_closed {} (fresh_start _ _) goesOn reached idle member
  · exact current
  · simpa [left] using through w there

/-- The first document is closed while it is being checked. -/
def closeFirst : List Turn :=
  [.advance ⟨.empty, utf8 "/", []⟩ 0, .event (.ofMessage "textDocument/didClose" [Message.about "file:///a" []]),
    .advance ⟨.empty, utf8 "/", []⟩ 0]

/-- Nothing is under way any more, and nothing was ever published about the second document, which is open. -/
theorem closing_leaves_document_unchecked :
    ∃ x, begun.after {} (openTwo ++ .alarm :: closeFirst) = x ∧ x.IsIdle ∧
      ∃ d ∈ x.server.documents, d.uri = utf8 "file:///b" ∧ ¬ x.server.IsCurrent d := by
  have ends : (sweepOfTwo.after {} closeFirst).IsIdle ∧
      (∃ d ∈ (sweepOfTwo.after {} closeFirst).server.documents, d.uri = utf8 "file:///b") ∧
      ((sweepOfTwo.after {} closeFirst).server.lastPublication? (utf8 "file:///b")).isNone = true := by decide
  obtain ⟨idle, ⟨d, member, uri⟩, untold⟩ := ends
  refine ⟨_, after_openTwo closeFirst, idle, d, member, uri, ?_⟩
  rintro ⟨findings, -, last⟩
  rw [uri, Option.isNone_iff_eq_none.mp untold] at last
  cases last

end Session

end Colloquy
