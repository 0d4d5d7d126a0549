import Colloquy.Proofs.Server.Sweep

/-! # What happens to a server

A server's life is a list of events: messages, scheduled checks and lists of models, in any order and on a host that
may change in between. `Stepped` says once what an event can do to the documents and to what is published about them.
-/

namespace Colloquy

/-- The message in a payload. One without a method is ignored. -/
def Message.heard? (payload : Bytes) : Option Message := (ofBytes? payload).filter fun m => !m.method.isEmpty

/-- A message as an editor writes it. -/
def Message.written (method : String) (members : List (String × Json)) : Bytes :=
  (Json.obj (("method", .str method) :: members)).compact

/-- Parameters that name a document. -/
def Message.about (uri : String) (members : List (String × Json)) : String × Json :=
  ("params", .obj [("textDocument", .obj (("uri", .str uri) :: members))])

namespace Server

inductive Cause where
  /-- A message arrives. -/
  | message (payload : Bytes)
  /-- A check is carried out that was scheduled under a number. -/
  | check (schedule : Nat)
  /-- A list of models arrives, or fails to. -/
  | models (provider : Bytes) (result : Except Bytes (List Bytes))

/-- Something that happens to a server, and the host as it is then. -/
structure Event where
  host : Host
  cause : Cause

namespace Event

def message? (e : Event) : Option Message :=
  match e.cause with
  | .message payload => Message.heard? payload
  | _ => none

def notice? (e : Event) : Option Notice := e.message?.bind Notice.of?

def isShutdown (e : Event) : Bool := e.message?.any fun m => m.method == utf8 "shutdown"

/-- A message arrives, on a host without files. -/
def ofMessage (method : String) (members : List (String × Json)) : Event :=
  ⟨⟨.empty, utf8 "/", []⟩, .message (Message.written method members)⟩

end Event

/-- What a server does at an event. -/
def step (f : Features) (s : Server) (e : Event) : Server :=
  match e.cause with
  | .message payload => (s.receive e.host payload f).1
  | .check schedule => s.runSchedule e.host schedule
  | .models provider result => s.receiveModels provider result

/-- The server after events. -/
def after (s : Server) (es : List Event) (f : Features := {}) : Server := es.foldl (step f) s

/-- A server that has heard nothing and said nothing. -/
structure Fresh (s : Server) : Prop where
  texts : s.texts = .empty
  versions : s.versions = .empty
  published : s.published = []
  sent : s.sent = []
  schedule : s.schedule = 0
  cache : s.cache.IsSound

theorem fresh_start (settings : Settings) (resolver : Resolver) : (start settings resolver).Fresh :=
  ⟨rfl, rfl, rfl, rfl, rfl, Cache.isSound_empty 0⟩

theorem Fresh.documents {s : Server} (fresh : s.Fresh) : s.documents = [] := by
  rw [Server.documents, fresh.texts]
  rfl

theorem after_append (f : Features) (s : Server) (before later : List Event) :
    s.after (before ++ later) f = (s.after before f).after later f :=
  List.foldl_append

theorem after_concat (f : Features) (s : Server) (es : List Event) (e : Event) :
    s.after (es ++ [e]) f = step f (s.after es f) e :=
  List.foldl_concat ..

/-! ## What an event can do -/

/-- Documents are the same, and so is what the editor was told about them. -/
structure Steady (s s' : Server) : Prop extends SameDocuments s s' where
  published : s'.published = s.published
  publications : s'.publications = s.publications
  schedule : s.schedule ≤ s'.schedule
  cache : s.cache.IsSound → s'.cache.IsSound

theorem Aside.steady {s s' : Server} (aside : Aside [] s s') : Steady s s' where
  toSameDocuments := aside.toSameDocuments
  published := aside.published
  publications := by rw [publications, aside.sent, List.nil_append, publications]
  schedule := aside.schedule
  cache := aside.cache

theorem Answers.steady {m : Message} {s s' : Server} (answers : Answers m s s') : Steady s s' := by
  obtain ⟨j, reply, aside⟩ := answers
  refine ⟨aside.toSameDocuments, aside.published, ?_, aside.schedule, aside.cache⟩
  rw [publications, aside.sent, List.singleton_append,
    List.filterMap_cons_none (Message.of?_eq_none_of_isReply reply), publications]

theorem Steady.retraced {s s' : Server} {before after : Trace.Tracer}
    (steady : Steady { s with tracer := before } s') : Steady s { s' with tracer := after } :=
  ⟨⟨steady.texts, steady.versions⟩, steady.published, steady.publications, steady.schedule, steady.cache⟩

theorem notice_tracer (s : Server) (host : Host) (n : Notice) (t : Trace.Tracer) :
    { s with tracer := t }.notice host n = { s.notice host n with tracer := t } := by
  cases n with
  | opened d =>
      simp only [notice, openDocument]
      split <;> rfl
  | changed d =>
      simp only [notice, changeDocument]
      split <;> rfl
  | saved d =>
      simp only [notice, saveDocument, versionOf]
      split
      · rfl
      · split
        · split <;> rfl
        · rfl
  | closed given =>
      simp only [notice, closeDocument]
      split
      · rfl
      · split <;> rfl

theorem shutdown_tracer (s : Server) (m : Message) (t : Trace.Tracer) :
    { s with tracer := t }.shutdown m = { s.shutdown m with tracer := t } := by
  have cleared : ∀ (uris : List Bytes) (s : Server),
      uris.foldl (fun s uri => s.publish uri none []) { s with tracer := t } =
        { uris.foldl (fun s uri => s.publish uri none []) s with tracer := t } := by
    intro uris
    induction uris with
    | nil => intro s; rfl
    | cons uri uris ih => intro s; exact ih (s.publish uri none [])
  have at_once := cleared (Bytes.sorted s.published) { s with shutdownRequested := true, published := [] }
  simp only [shutdown, clearPublished, respond, send] at at_once ⊢
  rw [at_once]

/-! ## Notices -/

/-- A document is closed, and what was published about it is cleared. -/
def closeAt (s : Server) (uri : Bytes) : Server :=
  let closed := { s with
    texts := s.texts.erase uri
    versions := s.versions.erase uri
    published := s.published.filter (· != uri)
    cache := s.cache.forget uri }
  if s.published.any (· == uri) then closed.publish uri none [] else closed

/-- What a notice can do to a server. -/
inductive Noticed (s : Server) (cwd : Bytes) : Notice → Server → Prop where
  | ignored {n : Notice} : n.address cwd = [] → Noticed s cwd n s
  | put {n : Notice} {d : OpenDocument} : n.address cwd = d.uri → d.uri ≠ [] →
      Noticed s cwd n (s.putDocument d).scheduleCheck
  | touched {d : Params.Saved} : Noticed s cwd (.saved d) s.scheduleCheck
  | closed {given : Bytes} : Uri.canonical cwd given ≠ [] →
      Noticed s cwd (.closed given) (s.closeAt (Uri.canonical cwd given))

/-- A notice without an address is ignored, whatever it tells. -/
theorem Noticed.addressed {s s' : Server} {cwd : Bytes} {n : Notice}
    (done : n.address cwd ≠ [] → Noticed s cwd n s') :
    Noticed s cwd n (if (n.address cwd).isEmpty then s else s') := by
  split
  · rename_i missing
    exact .ignored (List.isEmpty_iff.mp missing)
  · rename_i some
    exact done (by simpa using some)

theorem noticed_notice (s : Server) (host : Host) (n : Notice) : Noticed s host.cwd n (s.notice host n) := by
  cases n with
  | opened d => exact .addressed fun some => .put (d := ⟨_, d.text, d.version⟩) rfl some
  | changed d => exact .addressed fun some => .put (d := ⟨_, _, d.version⟩) rfl some
  | saved d =>
      refine .addressed fun some => ?_
      split
      · split
        · exact .touched
        · exact .put (d := ⟨_, _, _⟩) rfl some
      · exact .touched
  | closed given => exact .addressed fun some => .closed some

/-! ## Shutting down -/

theorem clearAll_keeps {P : Server → Prop} (keeps : ∀ s uri, P s → P (s.publish uri none [])) (uris : List Bytes)
    (s : Server) (before : P s) : P (uris.foldl (fun s uri => s.publish uri none []) s) := by
  induction uris generalizing s with
  | nil => exact before
  | cons uri uris ih => exact ih _ (keeps s uri before)

theorem sameDocuments_shutdown (s : Server) (m : Message) : SameDocuments s (s.shutdown m) := by
  have cleared : SameDocuments s { s with shutdownRequested := true }.clearPublished :=
    clearAll_keeps (P := SameDocuments s) (fun _ _ same => ⟨same.texts, same.versions⟩) _ _ ⟨rfl, rfl⟩
  exact ⟨cleared.texts, cleared.versions⟩

theorem schedule_shutdown (s : Server) (m : Message) : (s.shutdown m).schedule = s.schedule :=
  clearAll_keeps (P := fun t => t.schedule = s.schedule) (fun _ _ => id) _ _ rfl

/-! ## Events -/

/-- What an event can do to a server. -/
inductive Stepped (s : Server) (e : Event) : Server → Prop where
  | noticed {n : Notice} (t : Trace.Tracer) : e.notice? = some n →
      Stepped s e { s.notice e.host n with tracer := t }
  | shutdown {m : Message} (t : Trace.Tracer) : e.message? = some m → m.method = utf8 "shutdown" →
      Stepped s e { s.shutdown m with tracer := t }
  | checked {n : Nat} : e.cause = .check n → Stepped s e (s.runSchedule e.host n)
  | besides {s' : Server} : e.notice? = none → e.isShutdown = false → Steady s s' → Stepped s e s'

theorem aside_receiveModels (s : Server) (provider : Bytes) (result : Except Bytes (List Bytes)) :
    Aside [] s (s.receiveModels provider result) := by
  unfold receiveModels
  split
  · exact .refl s
  · dsimp only
    split
    · exact ⟨⟨rfl, rfl⟩, rfl, rfl, Nat.le_succ _, id⟩
    · exact ⟨⟨rfl, rfl⟩, rfl, rfl, Nat.le_refl _, id⟩

theorem stepped_handle {s : Server} {e : Event} {m : Message} (f : Features) (arrived : e.message? = some m) :
    Stepped s e (s.handle e.host m f).1 := by
  unfold handle
  dsimp only
  generalize (s.tracer.start .request m.method 0).2 = t
  have handled := handled_dispatch { s with tracer := t } e.host m f
  generalize dispatch { s with tracer := t } e.host m f = outcome at handled
  have carried : e.notice? = Notice.of? m := by rw [Event.notice?, arrived, Option.bind_some]
  have goesOn (other : m.method ≠ utf8 "shutdown") : e.isShutdown = false := by simpa [Event.isShutdown, arrived]
  cases handled with
  | noticed notice =>
      rw [notice_tracer]
      exact .noticed _ (carried.trans notice)
  | shutdown method =>
      rw [shutdown_tracer]
      exact .shutdown _ arrived method
  | answered due other answers =>
      exact .besides (carried.trans (notice_eq_none_of_due due)) (goesOn other) answers.steady.retraced
  | passed notRequest _ notice _ aside =>
      have other : m.method ≠ utf8 "shutdown" := by
        intro same
        rw [isRequest_of_mem (by rw [same]; decide)] at notRequest
        cases notRequest
      exact .besides (carried.trans notice) (goesOn other) aside.steady.retraced

theorem receive_heard {payload : Bytes} {m : Message} (heard : Message.heard? payload = some m) (s : Server)
    (host : Host) (f : Features) : s.receive host payload f = s.handle host m f := by
  obtain ⟨read, named⟩ := Option.filter_eq_some_iff.mp heard
  rw [receive, read]
  exact if_neg (by simpa using named)

theorem receive_unheard {payload : Bytes} (unheard : Message.heard? payload = none) (s : Server) (host : Host)
    (f : Features) : (s.receive host payload f).2 = none ∧ Aside [] s (s.receive host payload f).1 := by
  unfold receive
  split
  · exact ⟨rfl, .logLine s _⟩
  · rename_i m read
    have empty : m.method.isEmpty = true := by
      simpa [Message.heard?, read, Option.filter] using unheard
    rw [if_pos empty]
    exact ⟨rfl, .refl s⟩

theorem stepped (f : Features) (s : Server) (e : Event) : Stepped s e (step f s e) := by
  obtain ⟨host, cause⟩ := e
  cases cause with
  | message payload =>
      cases arrived : Message.heard? payload with
      | none =>
          have notice : Event.notice? ⟨host, .message payload⟩ = none := congrArg (Option.bind · Notice.of?) arrived
          have goesOn : Event.isShutdown ⟨host, .message payload⟩ = false := congrArg (Option.any _) arrived
          exact .besides notice goesOn (receive_unheard arrived s host f).2.steady
      | some m =>
          have handled : step f s ⟨host, .message payload⟩ = (s.handle host m f).1 :=
            congrArg Prod.fst (receive_heard arrived s host f)
          rw [handled]
          exact stepped_handle f arrived
  | check n => exact .checked rfl
  | models provider result => exact .besides rfl rfl (aside_receiveModels s provider result).steady

end Server

end Colloquy
