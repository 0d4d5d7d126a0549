import Colloquy.Proofs.Server.Event

/-! # Requests are answered in order

The answers that a server sends are those to the messages that ask for one, each once and in the order of the
messages. It makes no difference what the parameters are, whether a computation breaks down, and what else happens in
between.
-/

namespace Colloquy

namespace Message

/-- Whether a message asks for an answer: it has an identifier, and its method is a request's or is not known. -/
def expectsReply (m : Message) : Bool := m.id.isSome && (m.isRequest || (!m.method.isEmpty && !m.isNotification))

/-- A request has an identifier. -/
def IsIdentified (m : Message) : Prop := m.isRequest = true → m.id.isSome = true

instance (m : Message) : Decidable m.IsIdentified := inferInstanceAs (Decidable (_ → _))

/-- The identifiers that answers to messages repeat. -/
def asked (ms : List Message) : List (Option Json) := (ms.filter expectsReply).map Message.id

/-- The messages in payloads up to one at which the server stops. -/
def untilLast : List Bytes → List Message
  | [] => []
  | payload :: payloads =>
    match heard? payload with
    | none => untilLast payloads
    | some m => m :: if m.isLast then [] else untilLast payloads

/-- The messages of a stream that the server comes to handle. -/
def heardIn (stream : Bytes) : List Message := untilLast (Frame.readAll (stream.length + 1) stream).1

theorem asked_cons (m : Message) (ms : List Message) : asked (m :: ms) = asked [m] ++ asked ms := by
  rw [← List.singleton_append, asked, List.filter_append, List.map_append]
  rfl

theorem asked_of_not {m : Message} (silent : m.expectsReply = false) : asked [m] = [] := by
  simp [asked, silent]

theorem asked_of_expectsReply {m : Message} (expects : m.expectsReply = true) :
    asked [m] = [some (m.id.getD .null)] := by
  obtain ⟨id, same⟩ := Option.isSome_iff_exists.mp (Bool.and_eq_true_iff.mp expects).1
  simp [asked, expects, same]

theorem isNotification_of_isRequest {m : Message} (request : m.isRequest = true) : m.isNotification = false := by
  rw [← Bool.not_eq_true]
  intro notification
  have apart := (Server.not_isRequest_of_mem (List.contains_iff_mem.mp notification)).1
  simp [request] at apart

theorem isLast_eq_false {m : Message} (other : m.isNotification = false) : m.isLast = false := by
  have methods : m.method ∉ notificationMethods := by simpa [isNotification] using other
  have exit : m.method ≠ utf8 "exit" := fun same => methods (by simp [notificationMethods, same])
  have notice : m.method ∉ noticeMethods := fun named => methods (List.mem_append_right _ named)
  simp [isLast, exit, notice]

end Message

namespace Server

open Message

/-! ## What answers nothing -/

theorem Aside.replies_eq {s s' : Server} (aside : Aside [] s s') : s'.replies = s.replies := by
  rw [replies, aside.sent, List.nil_append, replies]

theorem replies_notice (s : Server) (host : Host) (n : Notice) : (s.notice host n).replies = s.replies := by
  have noticed := noticed_notice s host n
  generalize s.notice host n = s' at noticed
  cases noticed with
  | ignored | put | touched => rfl
  | closed =>
      unfold closeAt
      dsimp only
      split
      · exact replies_publish _ _ none []
      · rfl

theorem replies_runSchedule (s : Server) (host : Host) (n : Nat) : (s.runSchedule host n).replies = s.replies :=
  runSchedule_keeps (P := fun t => t.replies = s.replies)
    { traced := fun _ _ => id
      diagnosed := fun d t same => (aside_diagnose t host d).1.replies_eq.trans same
      announced := fun _ _ _ _ same => (replies_publish _ _ _ _).trans same } n rfl

/-! ## One message -/

theorem Answers.replies_eq {m : Message} {s s' : Server} (answers : Answers m s s') :
    s'.replies = s.replies ++ [some (m.id.getD .null)] := by
  obtain ⟨j, reply, aside⟩ := answers
  have sent : s'.replies = (s.send j).replies := by rw [replies, aside.sent, replies, send, List.singleton_append]
  rw [sent, replies_send_reply s reply]

theorem replies_shutdown (s : Server) (m : Message) :
    (s.shutdown m).replies = s.replies ++ [some (m.id.getD .null)] := by
  have cleared : { s with shutdownRequested := true }.clearPublished.replies = s.replies :=
    clearAll_keeps (P := fun t => t.replies = s.replies) (fun t uri => (replies_publish t uri none []).trans) _ _ rfl
  rw [shutdown, respond, replies_send_reply _ (m.isReply_response .null), cleared]

/-- A message gets the answer that it asks for and no other, and stops the server if it is a last one. -/
theorem replies_handle (s : Server) (host : Host) (f : Features) {m : Message} (named : m.method.isEmpty = false)
    (identified : m.IsIdentified) :
    (s.handle host m f).1.replies = s.replies ++ asked [m] ∧ (s.handle host m f).2.isSome = m.isLast := by
  unfold handle
  dsimp only
  generalize (s.tracer.start .request m.method 0).2 = t
  have handled := handled_dispatch { s with tracer := t } host m f
  generalize dispatch { s with tracer := t } host m f = outcome at handled
  cases handled with
  | @noticed n notice =>
      have named : m.method ∈ noticeMethods := by
        by_contra other
        simp [notice_eq_none other] at notice
      obtain ⟨notRequest, notification⟩ := not_isRequest_of_mem (List.mem_append_right _ named)
      have other : m.method ≠ utf8 "exit" := by
        rintro same
        exact absurd (same ▸ named) (by decide)
      rw [asked_of_not (by simp [expectsReply, notRequest, notification]), List.append_nil]
      exact ⟨replies_notice { s with tracer := t } host n, by simp [isLast, other, notice]⟩
  | shutdown method =>
      have request : m.isRequest = true := isRequest_of_mem (by rw [method]; decide)
      rw [asked_of_expectsReply (by simp [expectsReply, request, identified request])]
      exact ⟨replies_shutdown { s with tracer := t } m, (isLast_eq_false (isNotification_of_isRequest request)).symm⟩
  | answered due _ answers =>
      have expects : m.expectsReply = true ∧ m.isNotification = false := by
        obtain request | ⟨id, unknown⟩ := due
        · exact ⟨by simp [expectsReply, request, identified request], isNotification_of_isRequest request⟩
        · exact ⟨by simp [expectsReply, id, unknown, named], unknown⟩
      rw [asked_of_expectsReply expects.1]
      exact ⟨answers.replies_eq, (isLast_eq_false expects.2).symm⟩
  | passed notRequest silent _ last aside =>
      have unasked : m.expectsReply = false := by
        obtain notification | anonymous := silent
        · simp [expectsReply, notRequest, notification]
        · simp [expectsReply, anonymous]
      rw [asked_of_not unasked, List.append_nil]
      exact ⟨aside.replies_eq, last⟩

/-! ## Many messages -/

theorem replies_step (f : Features) (s : Server) (e : Event) (identified : ∀ m ∈ e.message?, m.IsIdentified) :
    (step f s e).replies = s.replies ++ asked e.message?.toList := by
  obtain ⟨host, cause⟩ := e
  cases cause with
  | message payload =>
      change (s.receive host payload f).1.replies = s.replies ++ asked (heard? payload).toList
      cases arrived : heard? payload with
      | none =>
          rw [(receive_unheard arrived s host f).2.replies_eq]
          exact (List.append_nil _).symm
      | some m =>
          have named : m.method.isEmpty = false := by simpa using (Option.filter_eq_some_iff.mp arrived).2
          rw [receive_heard arrived]
          exact (replies_handle s host f named (identified m arrived)).1
  | check n => exact (replies_runSchedule s host n).trans (List.append_nil _).symm
  | models provider result => exact (aside_receiveModels s provider result).replies_eq.trans (List.append_nil _).symm

theorem replies_after (f : Features) (s : Server) (es : List Event)
    (identified : ∀ e ∈ es, ∀ m ∈ e.message?, m.IsIdentified) :
    (s.after es f).replies = s.replies ++ asked (es.filterMap Event.message?) := by
  induction es generalizing s with
  | nil => exact (List.append_nil _).symm
  | cons e es ih =>
      have rest := ih (step f s e) fun e member => identified e (List.mem_cons_of_mem _ member)
      rw [replies_step f s e (identified e List.mem_cons_self), List.append_assoc] at rest
      refine rest.trans (congrArg _ ?_)
      cases arrived : e.message? with
      | none => rw [List.filterMap_cons_none arrived]; rfl
      | some m => rw [List.filterMap_cons_some arrived, asked_cons]; rfl

theorem replies_run (host : Host) (f : Features) (fuel : Nat) (s : Server) (t : Bytes)
    (identified : ∀ m ∈ untilLast (Frame.readAll fuel t).1, m.IsIdentified) :
    (run host f fuel s t).1.replies = s.replies ++ asked (untilLast (Frame.readAll fuel t).1) := by
  induction fuel generalizing s t with
  | zero => exact (List.append_nil _).symm
  | succ fuel ih =>
      cases read : Frame.read t with
      | error stop =>
          simp only [run, Frame.readAll, read]
          exact (List.append_nil _).symm
      | ok frame =>
          obtain ⟨payload, rest⟩ := frame
          simp only [run, Frame.readAll, read, untilLast] at identified ⊢
          cases arrived : heard? payload with
          | none =>
              simp only [arrived] at identified ⊢
              obtain ⟨goesOn, aside⟩ := receive_unheard arrived s host f
              split
              · rename_i stopped
                simp [stopped] at goesOn
              · rename_i s' same
                rw [same] at aside
                rw [← aside.replies_eq]
                exact ih s' rest identified
          | some m =>
              simp only [arrived] at identified ⊢
              have named : m.method.isEmpty = false := by simpa using (Option.filter_eq_some_iff.mp arrived).2
              obtain ⟨answered, stops⟩ := replies_handle s host f named (identified m List.mem_cons_self)
              rw [receive_heard arrived]
              rw [asked_cons, ← List.append_assoc, ← answered]
              split
              · rename_i s' stop same
                rw [same] at stops ⊢
                have last : m.isLast = true := stops.symm
                rw [if_pos last]
                exact (List.append_nil _).symm
              · rename_i s' same
                rw [same] at stops ⊢
                rw [if_neg (by simp [← stops])] at identified ⊢
                exact ih s' rest fun m member => identified m (List.mem_cons_of_mem _ member)

/-- The messages of a stream are answered in order, those that ask for it and each once, up to one that stops the
    server. So are messages among which documents are checked and lists of models arrive. -/
theorem answered_once_in_order (f : Features) (s : Server) :
    (∀ (host : Host) (stream : Bytes), (∀ m ∈ heardIn stream, m.IsIdentified) →
      (s.runAll host stream f).1.replies = s.replies ++ asked (heardIn stream)) ∧
    ∀ es : List Event, (∀ e ∈ es, ∀ m ∈ e.message?, m.IsIdentified) →
      (s.after es f).replies = s.replies ++ asked (es.filterMap Event.message?) :=
  ⟨fun host stream => replies_run host f (stream.length + 1) s stream, replies_after f s⟩

/-- Features of which one breaks down. -/
def breakingHover : Features := { hover := fun _ _ _ => .error (utf8 "index out of range") }

/-- A document is opened, and the server is asked about it in several ways before it is stopped. -/
def questions : Bytes :=
  [Message.written "initialize" [("id", .ofNat 1)],
    Message.written "textDocument/didOpen" [Message.about "file:///d" [("text", .str "a")]],
    Message.written "textDocument/hover" [("id", .ofNat 2), Message.about "file:///d" []],
    Message.written "textDocument/definition" [("id", .ofNat 3), ("params", .array [])],
    Message.written "unknown" [],
    Message.written "unknown" [("id", .str "a")],
    Message.written "exit" [],
    Message.written "shutdown" [("id", .ofNat 4)]].flatMap Frame.write

/-- A computation that breaks down, parameters that cannot be read and an unknown method are answered like others. -/
theorem answered_once_in_order_breaking :
    let s := start Settings.default ⟨[], false⟩
    (∀ m ∈ heardIn questions, m.IsIdentified) ∧
    (s.runAll ⟨.empty, utf8 "/", []⟩ questions breakingHover).1.replies.map (Option.map Json.compact) =
      ["1", "2", "3", "\"a\""].map fun id => some (utf8 id) := by
  intro s
  have identified : ∀ m ∈ heardIn questions, m.IsIdentified := by decide +kernel
  refine ⟨identified, ?_⟩
  rw [(answered_once_in_order breakingHover s).1 _ questions identified]
  decide +kernel

end Server

end Colloquy
