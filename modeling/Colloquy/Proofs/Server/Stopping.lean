import Colloquy.Proofs.Server.Replies

/-! # What stops a server

Two kinds of messages stop a server: one that tells it to exit, and a notice about a document that cannot be read.
Whether an exit was announced depends on earlier messages alone, whatever else happens in between. From a message that
cannot be read the server learns nothing about documents and settings.
-/

namespace Colloquy

namespace Message

/-- Why a server stops at a message: it is told to exit, which may have been announced, or it cannot read a notice. -/
def reason (announced : Bool) (m : Message) : ServerStop :=
  if m.method = utf8 "exit" then if announced then .exit else .exitWithoutShutdown
  else .unreadable m.params.isNone

def stop? (announced : Bool) (m : Message) : Option ServerStop :=
  if m.isLast then some (m.reason announced) else none

/-- Whether all is read of a message that the server looks for in it, the settings of an editor included. -/
def isReadable (m : Message) : Bool :=
  match String.fromUTF8? (ByteArray.mk m.method.toArray) with
  | some "initialize" =>
    (m.paramsOr Params.Initial.decode {}).any fun i => i.options.all fun j => (Overlay.ofJson? j).isSome
  | some "workspace/didChangeConfiguration" =>
    (m.params.bind (Params.settings none)).any fun sent => sent.all fun j => (Overlay.ofJson? j).isSome
  | some "workspace/symbol" => (m.paramsOr Params.query []).isSome
  | some "textDocument/didOpen" => (m.required Params.Opened.decode {}).isSome
  | some "textDocument/didChange" => (m.required Params.Changed.decode {}).isSome
  | some "textDocument/didSave" => (m.required Params.Saved.decode {}).isSome
  | some "textDocument/didClose" => (m.required Params.closed []).isSome
  | some "textDocument/hover" => (m.paramsOr Params.Place.decode {}).isSome
  | some "textDocument/definition" => (m.paramsOr Params.Place.decode {}).isSome
  | some "textDocument/codeAction" => (m.paramsOr Params.ActionContext.decode {}).isSome
  | some "codeAction/resolve" => (m.paramsOr Wire.Action.decode {}).isSome
  | _ => true

end Message

namespace Server

open Message

/-! ## Stopping -/

theorem Handled.isSome_stop {s : Server} {host : Host} {m : Message} {outcome : Server × Option ServerStop}
    (handled : Handled s host m outcome) : outcome.2.isSome = m.isLast := by
  cases handled with
  | noticed notice =>
      have named : m.method ∈ noticeMethods := by
        by_contra other
        simp [notice_eq_none other] at notice
      have other : m.method ≠ utf8 "exit" := by
        intro same
        exact absurd (same ▸ named) (by decide +kernel)
      simp [isLast, other, notice]
  | shutdown method =>
      have request : m.isRequest = true := isRequest_of_mem (by rw [method]; decide +kernel)
      exact (isLast_eq_false (isNotification_of_isRequest request)).symm
  | answered due =>
      obtain request | ⟨-, unknown⟩ := due
      · exact (isLast_eq_false (isNotification_of_isRequest request)).symm
      · exact (isLast_eq_false unknown).symm
  | passed _ _ _ last => exact last

theorem stop_notified {α : Type} {s : Server} {m : Message} {decode : α → Json → Option α} {zero : α}
    {notice : α → Notice} (unread : (m.required decode zero).map notice = none) (handle : α → Server) :
    (s.notified m decode zero handle).2 = some (.unreadable m.params.isNone) := by
  simp only [notified, Option.map_eq_none_iff.mp unread]

theorem stop_dispatch (s : Server) (host : Host) (m : Message) (f : Features) :
    (s.dispatch host m f).2 = m.stop? s.shutdownRequested := by
  have stops := (handled_dispatch s host m f).isSome_stop
  cases last : m.isLast with
  | false =>
      rw [last, Option.isSome_eq_false_iff, Option.isNone_iff_eq_none] at stops
      simp [stops, stop?, last]
  | true =>
      rw [stop?, if_pos last, reason]
      by_cases exit : m.method = utf8 "exit"
      · simp only [dispatch, exit, fromUTF8?_utf8, if_true]
      · have unreadable : m.method ∈ noticeMethods ∧ Notice.of? m = none := by
          simpa [isLast, exit] using last
        obtain ⟨named, unread⟩ := unreadable
        rw [if_neg exit]
        unfold Notice.of? at unread
        split_ifs at unread with opened changed saved closed
        · simp only [dispatch, opened, fromUTF8?_utf8]
          exact stop_notified unread _
        · simp only [dispatch, changed, fromUTF8?_utf8]
          exact stop_notified unread _
        · simp only [dispatch, saved, fromUTF8?_utf8]
          exact stop_notified unread _
        · simp only [dispatch, closed, fromUTF8?_utf8]
          exact stop_notified unread _
        · simp [noticeMethods, opened, changed, saved, closed] at named

/-- A payload without a message is ignored, or noted in the log. -/
theorem receive_eq_of_unheard {payload : Bytes} (unheard : heard? payload = none) (s : Server) (host : Host)
    (f : Features) :
    s.receive host payload f = (s.logLine (utf8 "failed to parse message"), none) ∨
      s.receive host payload f = (s, none) := by
  unfold receive
  split
  · exact .inl rfl
  · rename_i m read
    have empty : m.method.isEmpty = true := by simpa [heard?, read, Option.filter] using unheard
    exact .inr (if_pos empty)

theorem stop_handle (s : Server) (host : Host) (m : Message) (f : Features) :
    (s.handle host m f).2 = m.stop? s.shutdownRequested :=
  stop_dispatch { s with tracer := (s.tracer.start .request m.method 0).2 } host m f

/-- A payload stops the server exactly if there is a message in it that does. -/
theorem stop_receive (s : Server) (host : Host) (payload : Bytes) (f : Features) :
    (s.receive host payload f).2 = (heard? payload).bind (stop? s.shutdownRequested) := by
  cases heard : heard? payload with
  | none => exact (receive_unheard heard s host f).1
  | some m =>
      rw [receive_heard heard]
      exact stop_handle s host m f

/-! ## Shutting down -/

section

variable {s s' : Server} {host : Host}

theorem shutdownRequested_view? {uri : Bytes} {v : DocumentView} (seen : s.view? host uri = some (v, s')) :
    s'.shutdownRequested = s.shutdownRequested := by
  obtain ⟨d, -, same⟩ := Option.map_eq_some_iff.mp seen
  exact congrArg (·.2.shutdownRequested) same.symm

theorem shutdownRequested_traced {α : Type} (step : Server → Except Bytes α × Server)
    (keeps : ∀ s, (step s).2.shutdownRequested = s.shutdownRequested) (s : Server) (name : String) :
    (s.traced name step).2.shutdownRequested = s.shutdownRequested := by
  unfold Server.traced
  dsimp only
  have kept := keeps { s with tracer := (s.tracer.start .feature (utf8 name) 0).2 }
  split
  · rename_i same
    rw [same] at kept
    exact kept
  · rename_i same
    rw [same] at kept
    exact kept

theorem shutdownRequested_resolveAction (s : Server) (host : Host) (a : Wire.Action)
    (expand : DocumentView → Int → Int → Except Bytes (Option (Except ExpansionFault Wire.WorkspaceEdit))) :
    (s.resolveAction host a expand).2.shutdownRequested = s.shutdownRequested := by
  unfold Server.resolveAction
  split
  · split
    · rfl
    · rename_i seen
      have kept := shutdownRequested_view? seen
      split
      · exact kept
      · split <;> exact kept
  · rfl

theorem shutdownRequested_viewed {α : Type} (s : Server) (host : Host) (m : Message) (decode : α → Json → Option α)
    (zero : α) (uri : α → Bytes) (name : String) (answer : DocumentView → α → Except Bytes Json) :
    (s.viewed host m decode zero uri name answer).shutdownRequested = s.shutdownRequested := by
  unfold viewed
  split
  · rfl
  · split
    · rfl
    · rename_i params _ _ v s' seen
      exact (shutdownRequested_traced (fun s => (answer v params, s)) (fun _ => rfl) s' name).trans
        (shutdownRequested_view? seen)

theorem shutdownRequested_notice (s : Server) (host : Host) (n : Notice) :
    (s.notice host n).shutdownRequested = s.shutdownRequested := by
  have noticed := noticed_notice s host n
  generalize s.notice host n = s' at noticed
  cases noticed with
  | ignored | put | touched => rfl
  | closed =>
      unfold closeAt
      dsimp only
      split <;> rfl

theorem shutdownRequested_notified {α : Type} {s : Server} {m : Message} {decode : α → Json → Option α} {zero : α}
    {handle : α → Server} (keeps : ∀ params, (handle params).shutdownRequested = s.shutdownRequested) :
    (s.notified m decode zero handle).1.shutdownRequested = s.shutdownRequested := by
  unfold notified
  split
  · exact keeps _
  · rfl

/-- Only one message announces the end. -/
theorem shutdownRequested_dispatch {m : Message} (other : m.method ≠ utf8 "shutdown") (s : Server) (host : Host)
    (f : Features) : (s.dispatch host m f).1.shutdownRequested = s.shutdownRequested := by
  unfold dispatch
  split
  next =>
    unfold greet
    split <;> rfl
  next => rfl
  next read => exact absurd (method_eq read) other
  next => rfl
  next =>
    unfold changeSettings
    split
    · rfl
    · dsimp only
      split <;> rfl
  next =>
    unfold symbols
    split
    · rfl
    · exact shutdownRequested_traced _ (fun _ => rfl) s "workspace/symbol"
  next => exact shutdownRequested_notified fun d => shutdownRequested_notice s host (.opened d)
  next => exact shutdownRequested_notified fun d => shutdownRequested_notice s host (.changed d)
  next => exact shutdownRequested_notified fun d => shutdownRequested_notice s host (.saved d)
  next => exact shutdownRequested_notified fun uri => shutdownRequested_notice s host (.closed uri)
  next => exact shutdownRequested_viewed ..
  next => exact shutdownRequested_viewed ..
  next => exact shutdownRequested_viewed ..
  next =>
    unfold completeAction
    split
    · rfl
    · exact shutdownRequested_traced _ (fun s => shutdownRequested_resolveAction s host _ f.expansion) s _
  next => split <;> rfl

end

theorem shutdownRequested_handle (s : Server) (host : Host) (m : Message) (f : Features) :
    (s.handle host m f).1.shutdownRequested = (s.shutdownRequested || m.method == utf8 "shutdown") := by
  change (dispatch { s with tracer := (s.tracer.start .request m.method 0).2 } host m f).1.shutdownRequested = _
  by_cases method : m.method = utf8 "shutdown"
  · have announced (t : Server) : (t.dispatch host m f).1.shutdownRequested = true := by
      simp only [dispatch, method, fromUTF8?_utf8]
      exact clearAll_keeps (P := fun t => t.shutdownRequested = true) (fun _ _ => id) _ _ rfl
    rw [announced]
    simp [method]
  · rw [shutdownRequested_dispatch method]
    simp [method]

theorem shutdownRequested_ensureModels (s : Server) (providers : List Bytes) :
    (s.ensureModels providers).shutdownRequested = s.shutdownRequested := by
  unfold ensureModels
  induction providers generalizing s with
  | nil => rfl
  | cons provider providers ih =>
      rw [List.foldl_cons, ih]
      split
      · rfl
      · dsimp only
        split <;> rfl

theorem shutdownRequested_diagnose (s : Server) (host : Host) (d : OpenDocument) :
    (s.diagnose host d).2.shutdownRequested = s.shutdownRequested := by
  unfold diagnose
  dsimp only
  split
  · rfl
  · dsimp only
    split
    · exact shutdownRequested_ensureModels ..
    · rfl

theorem shutdownRequested_runSchedule (s : Server) (host : Host) (n : Nat) :
    (s.runSchedule host n).shutdownRequested = s.shutdownRequested :=
  runSchedule_keeps (P := fun t => t.shutdownRequested = s.shutdownRequested)
    { traced := fun _ _ => id
      diagnosed := fun d t same => (shutdownRequested_diagnose t host d).trans same
      announced := fun _ _ _ _ => id } n rfl

theorem shutdownRequested_receiveModels (s : Server) (provider : Bytes) (result : Except Bytes (List Bytes)) :
    (s.receiveModels provider result).shutdownRequested = s.shutdownRequested := by
  unfold receiveModels
  split
  · rfl
  · dsimp only
    split <;> rfl

theorem shutdownRequested_receive (s : Server) (host : Host) (payload : Bytes) (f : Features) :
    (s.receive host payload f).1.shutdownRequested =
      (s.shutdownRequested || (heard? payload).any (·.method == utf8 "shutdown")) := by
  cases heard : heard? payload with
  | none =>
      rw [Option.any_none, Bool.or_false]
      obtain same | same := receive_eq_of_unheard heard s host f <;> rw [same]
      rfl
  | some m =>
      rw [receive_heard heard, Option.any_some]
      exact shutdownRequested_handle s host m f

theorem shutdownRequested_step (f : Features) (s : Server) (e : Event) :
    (step f s e).shutdownRequested = (s.shutdownRequested || e.isShutdown) := by
  obtain ⟨host, cause⟩ := e
  cases cause with
  | message payload => exact shutdownRequested_receive s host payload f
  | check n => exact (shutdownRequested_runSchedule s host n).trans (Bool.or_false _).symm
  | models provider result => exact (shutdownRequested_receiveModels s provider result).trans (Bool.or_false _).symm

theorem shutdownRequested_after (f : Features) (s : Server) (es : List Event) :
    (s.after es f).shutdownRequested = (s.shutdownRequested || es.any Event.isShutdown) := by
  induction es generalizing s with
  | nil => exact (Bool.or_false _).symm
  | cons e es ih =>
      have rest := ih (step f s e)
      rwa [shutdownRequested_step, Bool.or_assoc, ← List.any_cons] at rest

/-! ## What cannot be read -/

/-- The server has learnt nothing but the folders of the workspace. It may have answered, and noted something. -/
def Spared (s s' : Server) : Prop := ∃ roots tracer sent log, s' = { s with roots, tracer, sent, log }

namespace Spared

theorem refl (s : Server) : Spared s s := ⟨_, _, _, _, rfl⟩

theorem send (s : Server) (j : Json) : Spared s (s.send j) := ⟨_, _, _, _, rfl⟩

theorem logLine (s : Server) (line : Bytes) : Spared s (s.logLine line) := ⟨_, _, _, _, rfl⟩

theorem retraced {s s' : Server} {before after : Trace.Tracer} (spared : Spared { s with tracer := before } s') :
    Spared s { s' with tracer := after } := by
  obtain ⟨roots, tracer, sent, log, rfl⟩ := spared
  exact ⟨roots, after, sent, log, rfl⟩

end Spared

/-- Settings of which a part cannot be read change nothing. -/
theorem applyLive_unreadable {sent : Option Json} (unreadable : sent.all (fun j => (Overlay.ofJson? j).isSome) = false)
    (settings : Settings) : settings.applyLive sent = settings := by
  cases sent with
  | none => rfl
  | some j =>
      have unread : Overlay.ofJson? j = none := by simpa using unreadable
      simp [Settings.applyLive, unread]

theorem spared_viewed {α : Type} {m : Message} {decode : α → Json → Option α} {zero : α}
    (unread : (m.paramsOr decode zero).isSome = false) (s : Server) (host : Host) (uri : α → Bytes) (name : String)
    (answer : DocumentView → α → Except Bytes Json) : Spared s (s.viewed host m decode zero uri name answer) := by
  have none : m.paramsOr decode zero = none := by simpa using unread
  simp only [viewed, none]
  exact .send s _

theorem spared_notified {α : Type} {m : Message} {decode : α → Json → Option α} {zero : α}
    (unread : (m.required decode zero).isSome = false) (s : Server) (handle : α → Server) :
    Spared s (s.notified m decode zero handle).1 := by
  have none : m.required decode zero = none := by simpa using unread
  simp only [notified, none]
  exact .refl s

theorem spared_greet {m : Message}
    (unread : ((m.paramsOr Params.Initial.decode {}).any fun i =>
      i.options.all fun j => (Overlay.ofJson? j).isSome) = false) (s : Server) (host : Host) :
    Spared s (s.greet host m) := by
  unfold greet
  split
  · exact .send s _
  · rename_i i params
    rw [params, Option.any_some] at unread
    rw [applySettings, applyLive_unreadable unread]
    exact ⟨_, _, _, _, rfl⟩

theorem spared_changeSettings {m : Message}
    (unread : ((m.params.bind (Params.settings none)).any fun sent =>
      sent.all fun j => (Overlay.ofJson? j).isSome) = false) (s : Server) : Spared s (s.changeSettings m) := by
  unfold changeSettings
  split
  · exact .refl s
  · rename_i sent params
    rw [params, Option.any_some] at unread
    have same : s.applySettings sent = s := by rw [applySettings, applyLive_unreadable unread]
    simp only [same, beq_self_eq_true, if_true]
    exact .refl s

theorem spared_dispatch {m : Message} (unreadable : m.isReadable = false) (s : Server) (host : Host) (f : Features) :
    Spared s (s.dispatch host m f).1 := by
  unfold dispatch
  split
  next read =>
    simp only [isReadable, read] at unreadable
    exact spared_greet unreadable s host
  next => exact .refl s
  next read => simp [isReadable, read] at unreadable
  next => exact .refl s
  next read =>
    simp only [isReadable, read] at unreadable
    exact spared_changeSettings unreadable s
  next read =>
    have none : m.paramsOr Params.query [] = none := by simpa [isReadable, read] using unreadable
    simp only [symbols, none]
    exact .send s _
  next read =>
    simp only [isReadable, read] at unreadable
    exact spared_notified unreadable s _
  next read =>
    simp only [isReadable, read] at unreadable
    exact spared_notified unreadable s _
  next read =>
    simp only [isReadable, read] at unreadable
    exact spared_notified unreadable s _
  next read =>
    simp only [isReadable, read] at unreadable
    exact spared_notified unreadable s _
  next read =>
    simp only [isReadable, read] at unreadable
    exact spared_viewed unreadable s host _ _ _
  next read =>
    simp only [isReadable, read] at unreadable
    exact spared_viewed unreadable s host _ _ _
  next read =>
    simp only [isReadable, read] at unreadable
    exact spared_viewed unreadable s host _ _ _
  next read =>
    have none : m.paramsOr Wire.Action.decode {} = none := by simpa [isReadable, read] using unreadable
    simp only [completeAction, none]
    exact .send s _
  next =>
    split
    · exact .send s _
    · exact .refl s

/-- A payload in which there is no message, or one that cannot be read, teaches the server nothing. -/
theorem spared_receive {payload : Bytes} (unreadable : ∀ m, heard? payload = some m → m.isReadable = false)
    (s : Server) (host : Host) (f : Features) : Spared s (s.receive host payload f).1 := by
  cases heard : heard? payload with
  | none =>
      obtain same | same := receive_eq_of_unheard heard s host f <;> rw [same]
      · exact .logLine s _
      · exact .refl s
  | some m =>
      rw [receive_heard heard]
      exact (spared_dispatch (unreadable m heard) { s with tracer := _ } host f).retraced

end Server

end Colloquy
