import Colloquy.Proofs.Server.Coherence
import Colloquy.Proofs.Server.Visibility

/-! # What the editor shows follows the documents

Whatever happens to a server and in whatever order, the editor shows findings only for open documents. The latest
schedule brings all of them up to date, and what an event does after it without a new schedule leaves them so.
-/

namespace Colloquy.Server

/-! ## Schedules -/

theorem Stepped.schedule_le {s s' : Server} {e : Event} (stepped : Stepped s e s') : s.schedule ≤ s'.schedule := by
  cases stepped with
  | @noticed n t carried =>
      have noticed := noticed_notice s e.host n
      generalize s.notice e.host n = s' at noticed
      cases noticed with
      | ignored => exact Nat.le_refl _
      | put | touched => exact Nat.le_succ _
      | closed => exact (schedule_closeAt s _).ge
  | @shutdown m t => exact (schedule_shutdown s m).ge
  | checked => exact (schedule_runSchedule s e.host _).ge
  | besides _ _ steady => exact steady.schedule

theorem schedule_le_after (f : Features) (s : Server) (es : List Event) : s.schedule ≤ (s.after es f).schedule := by
  induction es generalizing s with
  | nil => exact Nat.le_refl _
  | cons e es ih => exact Nat.le_trans (stepped f s e).schedule_le (ih _)

/-! ## Documents stay current -/

/-- Documents may have been closed, and those that are open still are current if they were. -/
def Calm (s s' : Server) : Prop := ∀ d ∈ s'.documents, d ∈ s.documents ∧ (IsCurrent s d → IsCurrent s' d)

theorem Steady.calm {s s' : Server} (steady : Steady s s') : Calm s s' := fun d member =>
  ⟨steady.documents ▸ member, IsCurrent.of_last (steady.lastPublication?_eq d.uri)⟩

theorem Noticed.calm {s s' : Server} {cwd : Bytes} {n : Notice} (noticed : Noticed s cwd n s')
    (valid : (n.address cwd).isUtf8 = true) (same : s'.schedule = s.schedule) : Calm s s' := by
  intro d member
  cases noticed with
  | ignored => exact ⟨member, id⟩
  | put | touched => exact absurd same (Nat.succ_ne_self _)
  | closed =>
      rw [mem_documents_closeAt] at member
      have other := lastPublication?_closeAt s valid d.uri
      rw [if_neg fun gone => member.2 gone.2.symm] at other
      exact ⟨member.1, IsCurrent.of_last other⟩

/-- An event that schedules nothing opens no document, and those that it leaves open stay current. -/
theorem Stepped.calm {s s' : Server} {e : Event} (stepped : Stepped s e s') (coherent : Coherent s)
    (goesOn : e.isShutdown = false) (same : s'.schedule = s.schedule) : Calm s s' := by
  cases stepped with
  | @noticed n t carried =>
      obtain ⟨m, -, notice⟩ := Option.bind_eq_some_iff.mp carried
      have calm := (noticed_notice s e.host n).calm (Notice.isUtf8_address notice _) same
      exact fun d member => (calm d member).imp_right fun kept current => (kept current).of_last rfl
  | shutdown t arrived method => simp [Event.isShutdown, arrived, method] at goesOn
  | checked =>
      intro d member
      rw [(sameDocuments_runSchedule ..).documents] at member
      exact ⟨member, fun current => coherent.isCurrent_runSchedule e.host member (.inr current)⟩
  | besides _ _ steady => exact steady.calm

theorem isCurrent_after (f : Features) {s : Server} (coherent : Coherent s) {es : List Event}
    (goesOn : ∀ e ∈ es, e.isShutdown = false) (same : (s.after es f).schedule = s.schedule)
    (current : ∀ d ∈ s.documents, IsCurrent s d) : ∀ d ∈ (s.after es f).documents, IsCurrent (s.after es f) d := by
  induction es generalizing s with
  | nil => exact current
  | cons e es ih =>
      have stepped := stepped f s e
      have rises := stepped.schedule_le
      have later := schedule_le_after f (step f s e) es
      have sameFirst : (step f s e).schedule = s.schedule :=
        Nat.le_antisymm (Nat.le_trans later (Nat.le_of_eq same)) rises
      refine ih (coherent.stepped stepped) (fun e member => goesOn e (List.mem_cons_of_mem _ member))
        (same.trans sameFirst.symm) fun d member => ?_
      obtain ⟨before, stays⟩ := stepped.calm coherent (goesOn e List.mem_cons_self) sameFirst d member
      exact stays (current d before)

/-- Once the latest schedule has been carried out, all documents are current as long as it is the latest. -/
theorem isCurrent_after_check (f : Features) {s : Server} (coherent : Coherent s) (host : Host) {es : List Event}
    (goesOn : ∀ e ∈ es, e.isShutdown = false)
    (same : ((s.runSchedule host s.schedule).after es f).schedule = s.schedule) :
    ∀ d ∈ ((s.runSchedule host s.schedule).after es f).documents,
      IsCurrent ((s.runSchedule host s.schedule).after es f) d := by
  refine isCurrent_after f (coherent.runSchedule host _) goesOn (same.trans (schedule_runSchedule s host _).symm) ?_
  intro d member
  rw [(sameDocuments_runSchedule ..).documents] at member
  exact coherent.isCurrent_runSchedule host member (.inl rfl)

/-! ## Closed documents -/

theorem text?_after_eq_none (f : Features) {s : Server} {uri : Bytes} (hidden : s.text? uri = none) {es : List Event}
    (quiet : ∀ e ∈ es, e.shows uri = false) : (s.after es f).text? uri = none := by
  induction es generalizing s with
  | nil => exact hidden
  | cons e es ih =>
      refine ih ?_ fun e member => quiet e (List.mem_cons_of_mem _ member)
      have visible := isSome_text?_step f s e uri
      simpa [quiet e List.mem_cons_self, hidden] using visible

theorem Coherent.text?_nil {s : Server} (coherent : Coherent s) : s.text? [] = none := by
  rw [← Option.not_isSome_iff_eq_none, isSome_text?_iff]
  rintro ⟨d, member, nameless⟩
  exact (coherent.addressed d member).1 nameless

theorem Coherent.text?_of_closed {s : Server} (coherent : Coherent s) (f : Features) {e : Event} {given : Bytes}
    (closed : e.notice? = some (.closed given)) : (step f s e).text? (Uri.canonical e.host.cwd given) = none := by
  rw [text?_step, closed]
  dsimp only
  split
  · rfl
  · rename_i elsewhere
    have nowhere : Uri.canonical e.host.cwd given = [] := by simpa [Notice.concerns, Notice.address] using elsewhere
    rw [nowhere]
    exact coherent.text?_nil

/-- What was published last about a document that is not open is empty. -/
theorem Coherent.findings_eq_nil {s : Server} (coherent : Coherent s) {uri : Bytes} (unpublished : uri ∉ s.published)
    {p : Publication} (last : s.lastPublication? uri = some p) : p.findings = [] := by
  refine coherent.cleared p (List.mem_of_find?_eq_some last) ?_
  cases version : p.version with
  | none => rfl
  | some v => exact absurd ((coherent.versioned uri).mpr ⟨p, v, last, version⟩) unpublished

theorem Coherent.isSome_text? {s : Server} (coherent : Coherent s) {uri : Bytes} (published : uri ∈ s.published) :
    (s.text? uri).isSome = true :=
  isSome_text?_iff.mpr (coherent.opened uri published)

theorem published_step_of_isShutdown (f : Features) (s : Server) {e : Event} (last : e.isShutdown = true) :
    (step f s e).published = [] := by
  have stepped := stepped f s e
  generalize step f s e = s' at stepped
  cases stepped with
  | noticed t carried =>
      obtain ⟨m, arrived, notice⟩ := Option.bind_eq_some_iff.mp carried
      have method : m.method = utf8 "shutdown" := by simpa [Event.isShutdown, arrived] using last
      rw [notice_eq_none (by rw [method]; decide)] at notice
      cases notice
  | shutdown t =>
      exact clearAll_keeps (P := fun t => t.published = []) (fun _ _ => id) _ _ rfl
  | checked cause => simp [Event.isShutdown, Event.message?, cause] at last
  | besides _ goesOn => simp [goesOn] at last

/-- Each address is open once, and has a version exactly if it has a text. The editor shows findings for open documents
    only: those for which it was told last of findings under a version. An old schedule does nothing, and when the
    latest has been carried out the editor knows the version of every document. It shows nothing for a document that
    was closed, until that is shown again, and nothing at all after a shutdown. -/
theorem publications_follow_documents (f : Features) {s : Server} (fresh : s.Fresh) (es : List Event) {now : Server}
    (reached : s.after es f = now) :
    ((now.documents.map OpenDocument.uri).Nodup ∧ ∀ uri, (now.version? uri).isSome = (now.text? uri).isSome) ∧
    (∀ uri ∈ now.published, (now.text? uri).isSome = true) ∧
    (∀ uri, uri ∈ now.published ↔ ∃ p v, now.lastPublication? uri = some p ∧ p.version = some v) ∧
    (∀ host n, n ≠ now.schedule → now.runSchedule host n = now) ∧
    (∀ before host later, es = before ++ ⟨host, .check now.schedule⟩ :: later →
      (s.after before f).schedule = now.schedule → (∀ e ∈ later, e.isShutdown = false) →
      ∀ d ∈ now.documents, ∃ p, now.lastPublication? d.uri = some p ∧ p.version = some d.version) ∧
    (∀ before e given later, es = before ++ e :: later → e.notice? = some (.closed given) →
      (∀ e' ∈ later, e'.shows (Uri.canonical e.host.cwd given) = false) →
      ∀ p, now.lastPublication? (Uri.canonical e.host.cwd given) = some p → p.findings = []) ∧
    ∀ before e, es = before ++ [e] → e.isShutdown = true →
      ∀ uri p, now.lastPublication? uri = some p → p.findings = [] := by
  have coherent : Coherent now := reached ▸ fresh.coherent.after f es
  refine ⟨⟨now.nodup_documents, coherent.keyed⟩, fun uri => coherent.isSome_text?, coherent.versioned,
    fun host n old => runSchedule_dropped (.inr old) host, ?_, ?_, ?_⟩
  · intro before host later split latest goesOn d member
    have parts : ((s.after before f).runSchedule host (s.after before f).schedule).after later f = now := by
      rw [latest]
      exact (after_append f s before _).symm.trans (split ▸ reached)
    have current := isCurrent_after_check f (fresh.coherent.after f before) host goesOn (by rw [parts, latest])
    rw [parts] at current
    obtain ⟨findings, -, last⟩ := current d member
    exact ⟨_, last, rfl⟩
  · intro before e given later split closed quiet p last
    have hidden : now.text? (Uri.canonical e.host.cwd given) = none := by
      rw [← reached, split, after_append]
      exact text?_after_eq_none f ((fresh.coherent.after f before).text?_of_closed f closed) quiet
    refine coherent.findings_eq_nil (fun published => ?_) last
    simpa [hidden] using coherent.isSome_text? published
  · intro before e split shutdown uri p last
    refine coherent.findings_eq_nil (fun published => ?_) last
    rw [← reached, split, after_concat, published_step_of_isShutdown f _ shutdown] at published
    exact List.not_mem_nil published

/-- A document is opened and checked. -/
def openedAndChecked : List Event :=
  [.ofMessage "textDocument/didOpen" [Message.about "file:///d" [("version", .ofNat 7), ("text", .str "[](file://b)")]],
    ⟨⟨.empty, utf8 "/", []⟩, .check 1⟩]

/-- The editor is told of version 7, and of no findings when the document is closed. -/
theorem publications_follow_documents_closed :
    let s := start Settings.default ⟨[], false⟩
    let closing := Event.ofMessage "textDocument/didClose" [Message.about "file:///d" []]
    (∃ p, (s.after openedAndChecked).lastPublication? (utf8 "file:///d") = some p ∧ p.version = some 7) ∧
    ∃ p, (s.after (openedAndChecked ++ [closing])).lastPublication? (utf8 "file:///d") = some p ∧ p.findings = [] := by
  intro s closing
  have fresh : s.Fresh := fresh_start _ _
  constructor
  · have opened : ∃ d ∈ (s.after openedAndChecked).documents, d.uri = utf8 "file:///d" ∧ d.version = 7 := by
      decide +kernel
    have latest : (s.after openedAndChecked).schedule = 1 := by decide +kernel
    obtain ⟨d, member, uri, version⟩ := opened
    have follows := (publications_follow_documents {} fresh openedAndChecked rfl).2.2.2.2.1
    rw [latest] at follows
    rw [← uri, ← version]
    exact follows [_] _ [] rfl (by decide +kernel) (by simp) d member
  · have told : ((s.after (openedAndChecked ++ [closing])).lastPublication? (utf8 "file:///d")).isSome = true := by
      decide +kernel
    have closed : closing.notice? = some (.closed (utf8 "file:///d")) := by decide
    have address : Uri.canonical closing.host.cwd (utf8 "file:///d") = utf8 "file:///d" := by decide
    obtain ⟨p, last⟩ := Option.isSome_iff_exists.mp told
    have follows := (publications_follow_documents {} fresh (openedAndChecked ++ [closing]) rfl).2.2.2.2.2.1
    refine ⟨p, last, follows openedAndChecked closing _ [] rfl closed (by simp) p ?_⟩
    rw [address]
    exact last

end Colloquy.Server
