import Colloquy.Proofs.Json.Decode
import Colloquy.Proofs.Outline.Cache
import Colloquy.Proofs.Server.Notice
import Colloquy.Server.Basic

/-! # What handling a message comes to

A message carries a notice, asks the server to shut down, is answered, or is passed over. `Handled` says so for every
message and whatever the features compute, and what follows about the server is read off it. What is done besides
leaves the documents alone: `Aside` says what stays.
-/

namespace Colloquy

/-! ## What the editor is told

An editor reads the server's messages by the rules by which the server reads the editor's. A message without a method
answers one of its own, and one of them carries the findings on a document. What was sent is kept with the latest
message first.
-/

/-- Findings on a document as an editor reads them. They belong to a version, or to none when they are cleared. -/
structure Publication where
  uri : Bytes := []
  version : Option Int64 := none
  findings : List Json := []

namespace Publication

def decodeFindings (p : Publication) : Json → Option Publication
  | .array findings => some { p with findings }
  | _ => none

def decode : Publication → Json → Option Publication :=
  Json.decodeRecord [
    ("uri", fun p j => (Json.decodeText p.uri j).map fun uri => { p with uri }),
    ("version", fun p j =>
      (Json.decodeOption Json.decodeInt64 0 p.version j).map fun version => { p with version }),
    ("diagnostics", decodeFindings)]

/-- The publication that a message carries. -/
def of? (j : Json) : Option Publication :=
  (Message.decode {} j).bind fun m =>
    if m.method == utf8 "textDocument/publishDiagnostics" then m.required decode {} else none

end Publication

namespace Message

/-- An answer to a message repeats its identifier and has no method. -/
def IsReply (m : Message) (j : Json) : Prop := decode {} j = some { id := some (m.id.getD .null) }

-- What is read is what the members say one after the other. Which field each of them names is computed.
theorem isReply_response (m : Message) (result : Json) : m.IsReply (m.response result) := by
  refine (Json.decodeRecord_cons (i := 1) (by decide +kernel) rfl).trans ?_
  refine (Json.decodeRecord_cons (i := 0) (by decide +kernel) rfl).trans ?_
  exact (Json.decodeRecord_cons_unknown (by decide +kernel)).trans rfl

/-- The reason of a refusal is read, and dropped. -/
theorem checkError_refusal {code : Int} (fits : fitsSigned code = true) (text : String) (m : Message) :
    checkError m (Json.obj [("code", .ofInt code), ("message", Json.str text)]) = some m := by
  have number : Json.decodeInt 0 (.ofInt code) = some code := by
    simp [Json.decodeInt, Json.ofInt, Json.integer?_ofInt, fits]
  rw [checkError, Json.decodeRecord_cons (i := 0) (by decide +kernel) rfl, number, Option.map_some, Option.bind_some,
    Json.decodeRecord_cons (i := 1) (by decide +kernel) rfl]
  rfl

theorem isReply_refusal (m : Message) {code : Int} (fits : fitsSigned code = true) (text : String) :
    m.IsReply (m.refusal code text) := by
  refine (Json.decodeRecord_cons (i := 4) (by decide +kernel) rfl).trans ?_
  rw [checkError_refusal fits, Option.bind_some]
  refine (Json.decodeRecord_cons (i := 1) (by decide +kernel) rfl).trans ?_
  exact (Json.decodeRecord_cons (i := 0) (by decide +kernel) rfl).trans rfl

theorem isReply_invalidParams (m : Message) : m.IsReply m.invalidParams := m.isReply_refusal (by decide) _

theorem isReply_methodNotFound (m : Message) : m.IsReply m.methodNotFound := m.isReply_refusal (by decide) _

theorem decode_notification (method : String) (params : Json) :
    decode {} (notification method params) =
      some { method := Json.unescape (Json.escape (utf8 method)), params := some params } := by
  refine (Json.decodeRecord_cons (i := 0) (by decide +kernel) rfl).trans ?_
  refine (Json.decodeRecord_cons (i := 2) (by decide +kernel) rfl).trans ?_
  exact (Json.decodeRecord_cons (i := 3) (by decide +kernel) rfl).trans rfl

theorem of?_eq_none_of_isReply {m : Message} {j : Json} (reply : m.IsReply j) : Publication.of? j = none := by
  have other : ¬ (([] : Bytes) == utf8 "textDocument/publishDiagnostics") = true := by decide +kernel
  rw [Publication.of?, reply, Option.bind_some, if_neg other]

end Message

namespace Server

/-- The publications that were sent, latest first. -/
def publications (s : Server) : List Publication := s.sent.filterMap Publication.of?

/-- What the editor was told last about a document. -/
def lastPublication? (s : Server) (uri : Bytes) : Option Publication := s.publications.find? fun p => p.uri == uri

/-- The identifiers of the answers that were sent, first to last. -/
def replies (s : Server) : List (Option Json) :=
  ((s.sent.reverse.filterMap (Message.decode {})).filter fun m => m.method.isEmpty).map Message.id

theorem sent_publish (s : Server) (uri : Bytes) (version : Option Int64) (findings : List Wire.Finding) :
    ∃ j params, (s.publish uri version findings).sent = j :: s.sent ∧
      Message.decode {} j = some { method := utf8 "textDocument/publishDiagnostics", params := some params } ∧
      Publication.decode {} params = some ⟨uri.sanitize, version, findings.map Wire.Finding.toJson⟩ := by
  have method : Json.unescape (Json.escape (utf8 "textDocument/publishDiagnostics")) =
      utf8 "textDocument/publishDiagnostics" := by decide +kernel
  refine ⟨_, _, rfl, method ▸ Message.decode_notification .., ?_⟩
  rw [← Json.unescape_escape]
  refine (Json.decodeRecord_cons (i := 0) (by decide +kernel) rfl).trans ?_
  cases version with
  | none => exact (Json.decodeRecord_cons (i := 2) (by decide +kernel) rfl).trans rfl
  | some v =>
      have number : Json.decodeOption Json.decodeInt64 0 none (.ofInt v.toInt) = some (some v) :=
        congrArg (Option.map some) (Json.decodeInt64_ofInt 0 v)
      refine (Json.decodeRecord_cons (i := 1) (by decide +kernel) rfl).trans ?_
      simp only [number, Option.map_some, Option.bind_some]
      exact (Json.decodeRecord_cons (i := 2) (by decide +kernel) rfl).trans rfl

theorem publications_publish (s : Server) {uri : Bytes} (valid : uri.isUtf8 = true) (version : Option Int64)
    (findings : List Wire.Finding) :
    (s.publish uri version findings).publications =
      ⟨uri, version, findings.map Wire.Finding.toJson⟩ :: s.publications := by
  obtain ⟨j, params, sent, message, read⟩ := sent_publish s uri version findings
  have carried : Publication.of? j = some ⟨uri, version, findings.map Wire.Finding.toJson⟩ := by
    rw [Publication.of?, message, Option.bind_some, if_pos (beq_self_eq_true _), Message.required, Option.bind_some,
      read, Bytes.sanitize_of_isUtf8 valid]
  rw [publications, sent, List.filterMap_cons_some carried, publications]

theorem lastPublication?_publish (s : Server) {uri : Bytes} (valid : uri.isUtf8 = true) (version : Option Int64)
    (findings : List Wire.Finding) (other : Bytes) :
    (s.publish uri version findings).lastPublication? other =
      if uri = other then some ⟨uri, version, findings.map Wire.Finding.toJson⟩ else s.lastPublication? other := by
  rw [lastPublication?, publications_publish s valid]
  split
  · rename_i same
    rw [List.find?_cons_of_pos (by simpa using same)]
  · rename_i different
    rw [List.find?_cons_of_neg (by simpa using different), lastPublication?]

theorem replies_publish (s : Server) (uri : Bytes) (version : Option Int64) (findings : List Wire.Finding) :
    (s.publish uri version findings).replies = s.replies := by
  obtain ⟨j, params, sent, message, read⟩ := sent_publish s uri version findings
  have named : (utf8 "textDocument/publishDiagnostics").isEmpty = false := by decide +kernel
  rw [replies, sent, List.reverse_cons, List.filterMap_append, List.filterMap_cons_some message]
  simp [named, replies]

theorem replies_send_reply (s : Server) {m : Message} {j : Json} (reply : m.IsReply j) :
    (s.send j).replies = s.replies ++ [some (m.id.getD .null)] := by
  rw [replies, send, List.reverse_cons, List.filterMap_append, List.filterMap_cons_some reply]
  simp [replies]

end Server

/-! ## What a message does -/

namespace Message

def requestMethods : List Bytes :=
  [utf8 "initialize", utf8 "shutdown", utf8 "workspace/symbol", utf8 "textDocument/hover",
    utf8 "textDocument/definition", utf8 "textDocument/codeAction", utf8 "codeAction/resolve"]

def noticeMethods : List Bytes :=
  [utf8 "textDocument/didOpen", utf8 "textDocument/didChange", utf8 "textDocument/didSave",
    utf8 "textDocument/didClose"]

def notificationMethods : List Bytes :=
  [utf8 "initialized", utf8 "exit", utf8 "workspace/didChangeConfiguration"] ++ noticeMethods

def isRequest (m : Message) : Bool := requestMethods.contains m.method

def isNotification (m : Message) : Bool := notificationMethods.contains m.method

/-- Whether the server stops at a message: at one that says so, or at a notice that cannot be read. -/
def isLast (m : Message) : Bool :=
  m.method == utf8 "exit" || (noticeMethods.contains m.method && (Notice.of? m).isNone)

end Message

namespace Server

/-- The server has sent `told` and nothing has happened to documents. -/
structure Aside (told : List Json) (s s' : Server) : Prop extends SameDocuments s s' where
  sent : s'.sent = told ++ s.sent
  published : s'.published = s.published
  schedule : s.schedule ≤ s'.schedule
  cache : s.cache.IsSound → s'.cache.IsSound

namespace Aside

theorem refl (s : Server) : Aside [] s s := ⟨⟨rfl, rfl⟩, rfl, rfl, Nat.le_refl _, id⟩

theorem trans {a b : List Json} {s s' s'' : Server} (first : Aside a s s') (second : Aside b s' s'') :
    Aside (b ++ a) s s'' where
  toSameDocuments := first.toSameDocuments.trans second.toSameDocuments
  sent := by rw [second.sent, first.sent, List.append_assoc]
  published := second.published.trans first.published
  schedule := Nat.le_trans first.schedule second.schedule
  cache := second.cache ∘ first.cache

theorem send (s : Server) (j : Json) : Aside [j] s (s.send j) := ⟨⟨rfl, rfl⟩, rfl, rfl, Nat.le_refl _, id⟩

theorem logLine (s : Server) (line : Bytes) : Aside [] s (s.logLine line) := ⟨⟨rfl, rfl⟩, rfl, rfl, Nat.le_refl _, id⟩

/-- A step that is traced does what it does without. -/
theorem retraced {told : List Json} {s s' : Server} {before after : Trace.Tracer}
    (aside : Aside told { s with tracer := before } s') : Aside told s { s' with tracer := after } :=
  ⟨⟨aside.texts, aside.versions⟩, aside.sent, aside.published, aside.schedule, aside.cache⟩

theorem viewOf (s : Server) (host : Host) (d : OpenDocument) : Aside [] s (s.viewOf host d).2 :=
  ⟨⟨rfl, rfl⟩, rfl, rfl, Nat.le_refl _, fun sound => Cache.isSound_get sound d.uri d.version d.text⟩

theorem view? {s s' : Server} {host : Host} {uri : Bytes} {v : DocumentView} (seen : s.view? host uri = some (v, s')) :
    Aside [] s s' := by
  obtain ⟨d, -, same⟩ := Option.map_eq_some_iff.mp seen
  have aside := viewOf s host d
  rwa [same] at aside

theorem traced {α : Type} (step : Server → Except Bytes α × Server) (steps : ∀ s, Aside [] s (step s).2) (s : Server)
    (name : String) : Aside [] s (s.traced name step).2 := by
  unfold Server.traced
  dsimp only
  have aside := steps { s with tracer := (s.tracer.start .feature (utf8 name) 0).2 }
  split
  · rename_i result s' same
    rw [same] at aside
    exact aside.retraced
  · rename_i reason s' same
    rw [same] at aside
    exact (aside.trans (logLine s' _)).retraced

theorem resolveAction (s : Server) (host : Host) (a : Wire.Action)
    (expand : DocumentView → Int → Int → Except Bytes (Option (Except ExpansionFault Wire.WorkspaceEdit))) :
    Aside [] s (s.resolveAction host a expand).2 := by
  unfold Server.resolveAction
  split
  · split
    · exact refl s
    · rename_i seen
      have aside := view? seen
      split
      · exact aside
      split
      · exact aside
      · exact aside.trans (logLine _ _)
      · exact aside
      · exact aside
  · exact refl s

end Aside

/-! ## Answers -/

/-- The message was answered, and nothing else was sent. -/
def Answers (m : Message) (s s' : Server) : Prop := ∃ j, m.IsReply j ∧ Aside [j] s s'

theorem answers_response (m : Message) (s : Server) (result : Json) : Answers m s (s.respond m result) :=
  ⟨_, m.isReply_response result, .send s _⟩

theorem answers_invalidParams (m : Message) (s : Server) : Answers m s (s.send m.invalidParams) :=
  ⟨_, m.isReply_invalidParams, .send s _⟩

theorem Answers.behind {m : Message} {s s' s'' : Server} (first : Aside [] s s') (answered : Answers m s' s'') :
    Answers m s s'' := by
  obtain ⟨j, reply, aside⟩ := answered
  exact ⟨j, reply, first.trans aside⟩

theorem answers_greet (s : Server) (host : Host) (m : Message) : Answers m s (s.greet host m) := by
  unfold greet
  split
  · exact answers_invalidParams m s
  · rename_i i _
    have settled : Aside [] s ({ s with roots := rootsOf host i }.applySettings i.options) :=
      ⟨⟨rfl, rfl⟩, rfl, rfl, Nat.le_refl _, id⟩
    exact .behind settled (answers_response m _ capabilities)

theorem answers_viewed {α : Type} (s : Server) (host : Host) (m : Message) (decode : α → Json → Option α) (zero : α)
    (uri : α → Bytes) (name : String) (answer : DocumentView → α → Except Bytes Json) :
    Answers m s (s.viewed host m decode zero uri name answer) := by
  unfold viewed
  split
  · exact answers_invalidParams m s
  · split
    · exact answers_response m s .null
    · rename_i params _ _ v s' seen
      have computed := (Aside.view? seen).trans (Aside.traced (fun s => (answer v params, s)) .refl s' name)
      exact .behind computed (answers_response m _ _)

theorem answers_symbols (s : Server) (host : Host) (m : Message) (f : Features) : Answers m s (s.symbols host m f) := by
  unfold symbols
  split
  · exact answers_invalidParams m s
  · rename_i query _
    have computed := Aside.traced (fun s => (f.symbols host s.resolver s.roots query, s)) .refl s "workspace/symbol"
    exact .behind computed (answers_response m _ _)

theorem answers_completeAction (s : Server) (host : Host) (m : Message) (f : Features) :
    Answers m s (s.completeAction host m f) := by
  unfold completeAction
  split
  · exact answers_invalidParams m s
  · rename_i a _
    have computed := Aside.traced _ (fun s => .resolveAction s host a f.expansion) s "codeAction/resolve"
    exact .behind computed (answers_response m _ _)

theorem aside_changeSettings (s : Server) (m : Message) : Aside [] s (s.changeSettings m) := by
  unfold changeSettings
  split
  · exact .refl s
  · dsimp only
    split
    · exact ⟨⟨rfl, rfl⟩, rfl, rfl, Nat.le_refl _, id⟩
    · exact ⟨⟨rfl, rfl⟩, rfl, rfl, Nat.le_succ _, id⟩

/-! ## Messages -/

theorem method_eq {t : Bytes} {name : String} (read : String.fromUTF8? (ByteArray.mk t.toArray) = some name) :
    t = utf8 name := by
  unfold String.fromUTF8? at read
  split at read
  · obtain rfl := Option.some.inj read
    rfl
  · cases read

/-- What handling a message comes to. -/
inductive Handled (s : Server) (host : Host) (m : Message) : Server × Option ServerStop → Prop where
  | noticed {n : Notice} : Notice.of? m = some n → Handled s host m (s.notice host n, none)
  | shutdown : m.method = utf8 "shutdown" → Handled s host m (s.shutdown m, none)
  | answered {s' : Server} : m.isRequest = true ∨ (m.id.isSome = true ∧ m.isNotification = false) →
      m.method ≠ utf8 "shutdown" → Answers m s s' → Handled s host m (s', none)
  | passed {s' : Server} {stop : Option ServerStop} : m.isRequest = false →
      m.isNotification = true ∨ m.id = none → Notice.of? m = none → stop.isSome = m.isLast → Aside [] s s' →
      Handled s host m (s', stop)

theorem isRequest_of_mem {m : Message} (named : m.method ∈ Message.requestMethods) : m.isRequest = true :=
  List.contains_iff_mem.mpr named

theorem not_isRequest_of_mem {m : Message} (named : m.method ∈ Message.notificationMethods) :
    m.isRequest = false ∧ m.isNotification = true := by
  have apart : ∀ t ∈ Message.notificationMethods, Message.requestMethods.contains t = false := by decide +kernel
  exact ⟨apart _ named, List.contains_iff_mem.mpr named⟩

theorem handled_request {s s' : Server} {host : Host} {m : Message} {name : Bytes} (method : m.method = name)
    (request : name ∈ Message.requestMethods) (other : name ≠ utf8 "shutdown") (answers : Answers m s s') :
    Handled s host m (s', none) := by
  subst method
  exact .answered (.inl (isRequest_of_mem request)) other answers

theorem handled_notified {α : Type} {s : Server} {host : Host} {m : Message} {decode : α → Json → Option α} {zero : α}
    {handle : α → Server} (notice : α → Notice) (named : m.method ∈ Message.noticeMethods)
    (read : Notice.of? m = (m.required decode zero).map notice)
    (handled : ∀ params, handle params = s.notice host (notice params)) :
    Handled s host m (s.notified m decode zero handle) := by
  unfold notified
  split
  · rename_i params readable
    rw [handled]
    rw [readable] at read
    exact .noticed read
  · rename_i unreadable
    rw [unreadable] at read
    obtain ⟨notRequest, notification⟩ := not_isRequest_of_mem (List.mem_append_right _ named)
    refine .passed notRequest (.inl notification) read ?_ (.refl s)
    simp [Message.isLast, named, read]

theorem notice_eq_none {m : Message} (other : m.method ∉ Message.noticeMethods) : Notice.of? m = none := by
  simp only [Message.noticeMethods, List.mem_cons, List.not_mem_nil, or_false, not_or] at other
  obtain ⟨opened, changed, saved, closed⟩ := other
  rw [Notice.of?, if_neg opened, if_neg changed, if_neg saved, if_neg closed]

/-- What is answered carries no notice. -/
theorem notice_eq_none_of_due {m : Message}
    (due : m.isRequest = true ∨ (m.id.isSome = true ∧ m.isNotification = false)) : Notice.of? m = none := by
  refine notice_eq_none fun named => ?_
  obtain ⟨notRequest, notification⟩ := not_isRequest_of_mem (List.mem_append_right _ named)
  simp [notRequest, notification] at due

theorem handled_note {s s' : Server} {host : Host} {m : Message} {stop : Option ServerStop} {name : Bytes}
    (method : m.method = name) (note : name ∈ Message.notificationMethods) (other : name ∉ Message.noticeMethods)
    (last : stop.isSome = (name == utf8 "exit")) (aside : Aside [] s s') : Handled s host m (s', stop) := by
  subst method
  obtain ⟨notRequest, notification⟩ := not_isRequest_of_mem note
  refine .passed notRequest (.inl notification) (notice_eq_none other) ?_ aside
  simp [Message.isLast, other, last]

/-- A method that is not known is refused if an answer is due, and passed over otherwise. -/
theorem handled_unknown {s : Server} {host : Host} {m : Message} (request : m.method ∉ Message.requestMethods)
    (notification : m.method ∉ Message.notificationMethods) :
    Handled s host m (if m.id.isSome then s.send m.methodNotFound else s, none) := by
  have notice : m.method ∉ Message.noticeMethods := notification ∘ List.mem_append_right _
  split
  · rename_i identified
    have known : utf8 "shutdown" ∈ Message.requestMethods := by decide +kernel
    exact .answered (.inr ⟨identified, by simpa [Message.isNotification] using notification⟩)
      (fun shutdown => request (shutdown ▸ known)) ⟨_, m.isReply_methodNotFound, .send s _⟩
  · rename_i anonymous
    have known : utf8 "exit" ∈ Message.notificationMethods := by decide +kernel
    have other : m.method ≠ utf8 "exit" := fun exit => notification (exit ▸ known)
    refine .passed (by simpa [Message.isRequest] using request) (.inr (by simpa using anonymous))
      (notice_eq_none notice) ?_ (.refl s)
    simp [Message.isLast, notice, other]

theorem handled_dispatch (s : Server) (host : Host) (m : Message) (f : Features) :
    Handled s host m (s.dispatch host m f) := by
  have names (name : String) (method : m.method = utf8 name) :
      String.fromUTF8? (ByteArray.mk m.method.toArray) = some name := by rw [method, fromUTF8?_utf8]
  unfold dispatch
  split
  next read => exact handled_request (method_eq read) (by decide +kernel) (by decide +kernel) (answers_greet s host m)
  next read => exact handled_note (method_eq read) (by decide +kernel) (by decide +kernel) (by decide +kernel) (.refl s)
  next read => exact .shutdown (method_eq read)
  next read => exact handled_note (method_eq read) (by decide +kernel) (by decide +kernel) (by simp) (.refl s)
  next read =>
    exact handled_note (method_eq read) (by decide +kernel) (by decide +kernel) (by decide +kernel)
      (aside_changeSettings s m)
  next read =>
    exact handled_request (method_eq read) (by decide +kernel) (by decide +kernel) (answers_symbols s host m f)
  next read =>
    have method := method_eq read
    refine handled_notified .opened (by rw [method]; decide +kernel) ?_ (fun d => rfl)
    rw [Notice.of?, if_pos method]
  next read =>
    have method := method_eq read
    refine handled_notified .changed (by rw [method]; decide +kernel) ?_ (fun d => rfl)
    rw [Notice.of?, if_neg (by rw [method]; decide +kernel), if_pos method]
  next read =>
    have method := method_eq read
    refine handled_notified .saved (by rw [method]; decide +kernel) ?_ (fun d => rfl)
    rw [Notice.of?, if_neg (by rw [method]; decide +kernel), if_neg (by rw [method]; decide +kernel), if_pos method]
  next read =>
    have method := method_eq read
    refine handled_notified .closed (by rw [method]; decide +kernel) ?_ (fun uri => rfl)
    rw [Notice.of?, if_neg (by rw [method]; decide +kernel), if_neg (by rw [method]; decide +kernel),
      if_neg (by rw [method]; decide +kernel), if_pos method]
  next read =>
    exact handled_request (method_eq read) (by decide +kernel) (by decide +kernel) (answers_viewed ..)
  next read =>
    exact handled_request (method_eq read) (by decide +kernel) (by decide +kernel) (answers_viewed ..)
  next read =>
    exact handled_request (method_eq read) (by decide +kernel) (by decide +kernel) (answers_viewed ..)
  next read =>
    exact handled_request (method_eq read) (by decide +kernel) (by decide +kernel) (answers_completeAction s host m f)
  next greeting greeted shutdown exit settings symbol opened changed saved closed hover definition action resolve =>
    have request : m.method ∉ Message.requestMethods := by
      simp only [Message.requestMethods, List.mem_cons, List.not_mem_nil, or_false, not_or]
      exact ⟨greeting ∘ names _, shutdown ∘ names _, symbol ∘ names _, hover ∘ names _, definition ∘ names _,
        action ∘ names _, resolve ∘ names _⟩
    have notice : m.method ∉ Message.noticeMethods := by
      simp only [Message.noticeMethods, List.mem_cons, List.not_mem_nil, or_false, not_or]
      exact ⟨opened ∘ names _, changed ∘ names _, saved ∘ names _, closed ∘ names _⟩
    have notification : m.method ∉ Message.notificationMethods := by
      simp only [Message.notificationMethods, List.cons_append, List.nil_append, List.mem_cons, not_or]
      exact ⟨greeted ∘ names _, exit ∘ names _, settings ∘ names _, notice⟩
    exact handled_unknown request notification

end Server

end Colloquy
