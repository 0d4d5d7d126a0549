import Colloquy.Proofs.Server.Event
import Mathlib.Data.List.Induction

/-! # Which documents are visible

A document is shown by the notices that it is opened or changed, and hidden by the one that it is closed. Nothing else
that happens to a server makes a difference. A change is taken to open a document that is not open, so what is visible
is what was opened and not closed since as long as changes come only to documents that are.
-/

namespace Colloquy

namespace Notice

def opens : Notice → Bool
  | .opened _ => true
  | _ => false

def changes : Notice → Bool
  | .changed _ => true
  | _ => false

def closes : Notice → Bool
  | .closed _ => true
  | _ => false

theorem isSome_effect (n : Notice) (held : Option Bytes) :
    (n.effect held).isSome = true ↔ n.opens = true ∨ n.changes = true ∨ (n.closes = false ∧ held.isSome = true) := by
  cases n <;> simp [effect, opens, changes, closes]

end Notice

namespace Server

namespace Event

/-- A document is told of by a notice of a kind. -/
def tells (kind : Notice → Bool) (uri : Bytes) (e : Event) : Bool :=
  e.notice?.any fun n => n.concerns e.host.cwd uri && kind n

def opens : Bytes → Event → Bool := tells Notice.opens

def changes : Bytes → Event → Bool := tells Notice.changes

def closes : Bytes → Event → Bool := tells Notice.closes

/-- The document is visible after the event, whether it was before or not. -/
def shows (uri : Bytes) (e : Event) : Bool := e.opens uri || e.changes uri

theorem closes_eq_false {uri : Bytes} {e : Event} (changes : e.changes uri = true) : e.closes uri = false := by
  unfold Event.changes closes tells at *
  cases carried : e.notice? with
  | none => rfl
  | some n =>
      rw [carried] at changes
      cases n with
      | changed => simp [Notice.closes]
      | opened | saved | closed => simp [Notice.changes] at changes

end Event

/-- Something has happened of one kind, and nothing of the other since. -/
def Since (kind other : Event → Bool) (es : List Event) : Prop :=
  ∃ before e later, es = before ++ e :: later ∧ kind e = true ∧ ∀ e' ∈ later, other e' = false

theorem not_since_nil (kind other : Event → Bool) : ¬ Since kind other [] := by
  rintro ⟨before, e, later, same, -⟩
  simp at same

theorem since_concat {kind other : Event → Bool} {es : List Event} {e : Event} :
    Since kind other (es ++ [e]) ↔ kind e = true ∨ (other e = false ∧ Since kind other es) := by
  constructor
  · rintro ⟨before, first, later, same, here, quiet⟩
    obtain rfl | ⟨later, last, rfl⟩ := List.eq_nil_or_concat later
    · obtain ⟨-, ends⟩ := List.append_inj' same rfl
      obtain rfl : e = first := List.head_eq_of_cons_eq ends
      exact .inl here
    · have same : es ++ [e] = (before ++ first :: later) ++ [last] := by simpa using same
      obtain ⟨rfl, ends⟩ := List.append_inj' same rfl
      obtain rfl : e = last := List.head_eq_of_cons_eq ends
      refine .inr ⟨quiet e (by simp), before, first, later, rfl, here, fun e' member => quiet e' ?_⟩
      simp [member]
  · rintro (here | ⟨silent, before, first, later, rfl, here, quiet⟩)
    · exact ⟨es, e, [], rfl, here, by simp⟩
    · refine ⟨before, first, later ++ [e], by simp, here, fun e' member => ?_⟩
      obtain member | last := List.mem_append.mp member
      · exact quiet e' member
      · exact List.mem_singleton.mp last ▸ silent

/-! ## What an event does to a document's text -/

theorem text?_step (f : Features) (s : Server) (e : Event) (uri : Bytes) :
    (step f s e).text? uri = match e.notice? with
      | some n => if n.concerns e.host.cwd uri then n.effect (s.text? uri) else s.text? uri
      | none => s.text? uri := by
  have stepped := stepped f s e
  generalize step f s e = s' at stepped
  cases stepped with
  | @noticed n t carried =>
      rw [carried]
      exact text?_notice s e.host n uri
  | @shutdown m t arrived method =>
      have silent : e.notice? = none := by
        rw [Event.notice?, arrived, Option.bind_some]
        exact notice_eq_none (by rw [method]; decide)
      rw [silent]
      exact (sameDocuments_shutdown s m).text? uri
  | @checked n cause =>
      have silent : e.notice? = none := by rw [Event.notice?, Event.message?, cause]; rfl
      rw [silent]
      exact (sameDocuments_runSchedule s e.host n).text? uri
  | besides silent _ steady =>
      rw [silent]
      exact steady.text? uri

theorem isSome_text?_step (f : Features) (s : Server) (e : Event) (uri : Bytes) :
    ((step f s e).text? uri).isSome = true ↔
      e.shows uri = true ∨ (e.closes uri = false ∧ (s.text? uri).isSome = true) := by
  rw [text?_step, Event.shows, Event.opens, Event.changes, Event.closes, Event.tells, Event.tells, Event.tells]
  cases e.notice? with
  | none => simp
  | some n =>
      cases concerned : n.concerns e.host.cwd uri with
      | false => simp [concerned]
      | true => simp [concerned, n.isSome_effect, or_assoc]

theorem isSome_view? (s : Server) (host : Host) (given : Bytes) :
    (s.view? host given).isSome = (s.text? (Uri.canonical host.cwd given)).isSome := by
  rw [view?, document?, text?, Option.isSome_map, Option.isSome_map]

/-- Changes come only to documents that are visible. -/
def ChangesVisible (f : Features) (s : Server) (uri : Bytes) (es : List Event) : Prop :=
  ∀ before e later, es = before ++ e :: later → e.changes uri = true → ((s.after before f).text? uri).isSome = true

theorem Fresh.text?_eq_none {s : Server} (fresh : s.Fresh) (uri : Bytes) : s.text? uri = none := by
  rw [text?, fresh.texts, Table.get?_empty]

theorem isSome_text?_after (f : Features) {s : Server} (fresh : s.Fresh) (es : List Event) (uri : Bytes) :
    ((s.after es f).text? uri).isSome = true ↔ Since (Event.shows uri) (Event.closes uri) es := by
  induction es using List.reverseRecOn with
  | nil =>
      rw [after, List.foldl_nil, fresh.text?_eq_none]
      simpa using not_since_nil _ _
  | append_singleton es e ih => rw [after_concat, isSome_text?_step, since_concat, ih]

theorem isSome_text?_after_opened (f : Features) {s : Server} (fresh : s.Fresh) (es : List Event) (uri : Bytes)
    (visible : ChangesVisible f s uri es) :
    ((s.after es f).text? uri).isSome = true ↔ Since (Event.opens uri) (Event.closes uri) es := by
  induction es using List.reverseRecOn with
  | nil =>
      rw [after, List.foldl_nil, fresh.text?_eq_none]
      simpa using not_since_nil _ _
  | append_singleton es e ih =>
      have before : ChangesVisible f s uri es := fun before e' later same =>
        visible before e' (later ++ [e]) (by simp [same])
      -- a change leaves a document visible, and does not close it
      have changed : e.changes uri = true → e.closes uri = false ∧ ((s.after es f).text? uri).isSome = true := by
        intro changes
        exact ⟨Event.closes_eq_false changes, visible es e [] rfl changes⟩
      rw [after_concat, isSome_text?_step, since_concat, ← ih before, Event.shows, Bool.or_eq_true, or_assoc]
      exact or_congr_right (or_iff_right_of_imp changed)

/-- A document is visible exactly if it was opened or changed and not closed since. If changes come only to visible
    documents, it is exactly if it was opened and not closed since. -/
theorem visible_iff_shown_since (f : Features) {s : Server} (fresh : s.Fresh) (es : List Event) (host : Host)
    (given : Bytes) :
    (((s.after es f).view? host given).isSome = true ↔
      Since (Event.shows (Uri.canonical host.cwd given)) (Event.closes (Uri.canonical host.cwd given)) es) ∧
    (ChangesVisible f s (Uri.canonical host.cwd given) es →
      (((s.after es f).view? host given).isSome = true ↔
        Since (Event.opens (Uri.canonical host.cwd given)) (Event.closes (Uri.canonical host.cwd given)) es)) := by
  rw [isSome_view?]
  exact ⟨isSome_text?_after f fresh es _, isSome_text?_after_opened f fresh es _⟩

/-- A document that is opened, and then changed. -/
def openedAndChanged : List Event :=
  [.ofMessage "textDocument/didOpen" [Message.about "file:///d" [("text", .str "a")]],
    .ofMessage "textDocument/didChange" [Message.about "file:///d" []]]

/-- A change leaves an open document visible, under another spelling of its address as well. -/
theorem visible_iff_shown_since_changed :
    let s := start Settings.default ⟨[], false⟩
    ChangesVisible {} s (utf8 "file:///d") openedAndChanged ∧
    ((s.after openedAndChanged).view? ⟨.empty, utf8 "/", []⟩ (utf8 "/x/../d")).isSome = true := by
  intro s
  have address : Uri.canonical (utf8 "/") (utf8 "/x/../d") = utf8 "file:///d" := by decide +kernel
  have visible : ChangesVisible {} s (utf8 "file:///d") openedAndChanged := by
    intro before e later same changes
    match before, same with
    | [], same =>
        obtain rfl := (List.cons.inj same).1
        exact absurd changes (by decide +kernel)
    | [first], same =>
        obtain rfl := (List.cons.inj same).1
        decide +kernel
    | first :: second :: more, same => simp [openedAndChanged] at same
  refine ⟨visible, ?_⟩
  rw [← address] at visible
  refine (((visible_iff_shown_since {} (fresh_start _ _) openedAndChanged _ _).2) visible).mpr ?_
  exact ⟨[], _, _, rfl, by decide +kernel, by decide +kernel⟩

/-- A document that was never opened is visible after a change, and so is one that was closed. -/
theorem change_shows_closed_document :
    let s := start Settings.default ⟨[], false⟩
    let host : Host := ⟨.empty, utf8 "/", []⟩
    let uri := utf8 "file:///d"
    let opening := Event.ofMessage "textDocument/didOpen" [Message.about "file:///d" [("text", .str "a")]]
    let change := Event.ofMessage "textDocument/didChange" [Message.about "file:///d" []]
    let closing := Event.ofMessage "textDocument/didClose" [Message.about "file:///d" []]
    (((s.after [change]).view? host uri).isSome = true ∧ ¬ Since (Event.opens uri) (Event.closes uri) [change]) ∧
    ((s.after [opening, closing, change]).view? host uri).isSome = true ∧
      ¬ Since (Event.opens uri) (Event.closes uri) [opening, closing, change] := by
  intro s host uri opening change closing
  have opens : change.opens uri = false ∧ closing.opens uri = false := by decide
  have closes : closing.closes uri = true := by decide
  refine ⟨⟨by decide, ?_⟩, by decide, ?_⟩
  · rw [← List.nil_append [change], since_concat]
    simp [opens, not_since_nil]
  · rw [show [opening, closing, change] = ([opening] ++ [closing]) ++ [change] from rfl, since_concat, since_concat]
    simp [opens, closes]

end Server

end Colloquy
