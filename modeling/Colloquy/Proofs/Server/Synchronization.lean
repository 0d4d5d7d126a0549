import Colloquy.Proofs.Server.Notice
import Colloquy.Proofs.Text.Utf16

/-! # The server and the editor hold the same texts

An editor keeps its documents in UTF-16 code units and tells the server what happens to them. This module
follows the editor's side of a session, notice by notice, and shows that the server holds the same text for
every address: `Agrees` relates what both sides hold, `Agrees.step` carries it over one notice, and
`Agrees.session` over a session.
-/

namespace Colloquy

namespace Notice

/-- Every text that a notice carries is valid UTF-8. -/
def IsUtf8 : Notice → Prop
  | .opened d => d.text.isUtf8 = true
  | .changed d => ∀ c ∈ d.changes.items, c.text.isUtf8 = true
  | .saved d => ∀ t ∈ d.text, t.isUtf8 = true
  | .closed _ => True

/-- What a notice means for the document that an editor shows. -/
def edit : Notice → Option Units → Option Units
  | .opened d, _ => some d.text.utf16
  | .changed d, shown =>
    shown.map fun u => d.changes.items.foldl (fun u c => u.replace c.range c.text.utf16) u
  | .saved d, shown => shown.map fun u => (d.text.map Bytes.utf16).getD u
  | .closed _, _ => none

end Notice

/-- The documents that an editor shows, by their canonical addresses. -/
abbrev Editor := Bytes → Option Units

namespace Editor

/-- An editor without documents. -/
def empty : Editor := fun _ => none

/-- A notice changes the document that it concerns. -/
def after (cwd : Bytes) (e : Editor) (n : Notice) : Editor := fun uri =>
  if n.concerns cwd uri then n.edit (e uri) else e uri

/-- An editor tells of changes only while the document is open. -/
def MaySend (cwd : Bytes) (e : Editor) : Notice → Prop
  | .changed d => ∀ uri, (Notice.changed d).concerns cwd uri = true → (e uri).isSome = true
  | _ => True

/-- The notices that an editor may send one after the other, and what it shows before and after them. -/
inductive Session (cwd : Bytes) : Editor → List Notice → Editor → Prop where
  | nil (e : Editor) : Session cwd e [] e
  | cons {e e' : Editor} {n : Notice} {ns : List Notice} : e.MaySend cwd n → n.IsUtf8 →
      Session cwd (e.after cwd n) ns e' → Session cwd e (n :: ns) e'

end Editor

/-- The server holds valid UTF-8 for what the editor shows, and nothing where the editor shows nothing. -/
structure Agrees (held : Option Bytes) (shown : Option Units) : Prop where
  valid : ∀ t, held = some t → t.isUtf8 = true
  units : held.map Bytes.utf16 = shown

namespace Agrees

theorem none : Agrees none none := ⟨by simp, rfl⟩

theorem some {t : Bytes} (valid : t.isUtf8 = true) : Agrees (some t) (some t.utf16) :=
  ⟨by rintro _ ⟨⟩; exact valid, rfl⟩

/-- One notice keeps both sides in agreement. -/
theorem step {held : Option Bytes} {shown : Option Units} {n : Notice} (agree : Agrees held shown)
    (valid : n.IsUtf8) (opened : ∀ d, n = .changed d → shown.isSome = true) :
    Agrees (n.effect held) (n.edit shown) := by
  obtain ⟨old, rfl⟩ := agree
  cases n with
  | opened d => exact .some valid
  | changed d =>
      cases held with
      | none => simpa using opened d rfl
      | some t =>
          obtain ⟨next, units⟩ := Change.utf16_applyAll (old t rfl) valid
          have agree := Agrees.some next
          rw [units] at agree
          exact agree
  | saved d =>
      cases held with
      | none => exact .none
      | some t =>
          cases sent : d.text with
          | none =>
              simp only [Notice.effect, Notice.edit, sent, Option.map_some, Option.map_none, Option.getD_none]
              exact .some (old t rfl)
          | some text =>
              simp only [Notice.effect, Notice.edit, sent, Option.map_some, Option.getD_some]
              exact .some (valid text sent)
  | closed uri => exact .none

/-- A session keeps both sides in agreement about every document. -/
theorem session {cwd uri : Bytes} {e e' : Editor} {ns : List Notice} {held : Option Bytes}
    (told : Editor.Session cwd e ns e') (agree : Agrees held (e uri)) :
    Agrees ((ns.filter (Notice.concerns cwd uri)).foldl (fun held n => n.effect held) held) (e' uri) := by
  induction told generalizing held with
  | nil e => exact agree
  | @cons e e' n ns maySend valid rest ih =>
      rw [List.filter_cons]
      split
      · rename_i concerned
        refine ih ?_
        rw [Editor.after, if_pos concerned]
        refine agree.step valid ?_
        rintro d rfl
        exact maySend uri concerned
      · -- Both sides leave the document alone.
        rename_i other
        refine ih ?_
        rw [Editor.after, if_neg other]
        exact agree

end Agrees

namespace Server

/-- After every session that starts without documents the server holds, for every canonical address, valid
UTF-8 whose code units are those that the editor shows. The messages for other addresses play no part. -/
theorem synchronized_with_editor (host : Host) (s : Server) (fresh : s.documents = []) {ms : List Message}
    {ns : List Notice} {e : Editor} (carried : ms.map Notice.of? = ns.map some)
    (told : Editor.Session host.cwd Editor.empty ns e) :
    (s.handleAll host ms).2 = none ∧ ∀ uri,
      (∀ t, (s.handleAll host ms).1.text? uri = some t → t.isUtf8 = true) ∧
      ((s.handleAll host ms).1.text? uri).map Bytes.utf16 = e uri ∧
      (s.handleAll host ms).1.text? uri =
        (s.handleAll host (ms.filter fun m => (Notice.of? m).any (Notice.concerns host.cwd uri))).1.text?
          uri := by
  obtain ⟨goesOn, texts⟩ := handleAll_notices host carried s
  refine ⟨goesOn, fun uri => ?_⟩
  have nothing : s.text? uri = none := by
    rw [← Option.not_isSome_iff_eq_none, isSome_text?_iff, fresh]
    simp
  have agree : Agrees _ (e uri) := Agrees.session told .none
  have addressed :=
    (handleAll_notices host (Notice.filter_carried carried (Notice.concerns host.cwd uri)) s).2 uri
  rw [List.filter_filter] at addressed
  simp only [Bool.and_self] at addressed
  rw [texts uri, addressed, nothing]
  exact ⟨agree.valid, agree.units, rfl⟩

/-- The editor opens two documents and types over half of a surrogate pair in one of them, which it now
spells differently. -/
theorem synchronized_with_editor_split_pair :
    let cwd := utf8 "/w"
    let opened (uri text : String) : Message :=
      { method := utf8 "textDocument/didOpen"
        params := some (Json.obj
          [("textDocument", Json.obj [("uri", Json.str uri), ("text", Json.str text)])]) }
    let typed : Message :=
      { method := utf8 "textDocument/didChange"
        params := some (Json.obj [("textDocument", Json.obj [("uri", Json.str "file:///w/./a")]),
          ("contentChanges", .array
            [Json.obj [("range", Range.toJson ⟨⟨0, 2⟩, ⟨0, 9⟩⟩), ("text", Json.str "é")]])]) }
    (((Server.start .default ⟨[], false⟩).handleAll ⟨.empty, cwd, []⟩
      [opened "file:///w/a" "a😀\r\nb", opened "untitled:b" "c", typed]).1.text?
        (utf8 "file:///w/a")).map Bytes.utf16 = some [0x61, 0xE9, 0x0A, 0x62] := by
  intro cwd opened typed
  let a : Notice := .opened ⟨utf8 "file:///w/a", 0, utf8 "a😀\r\nb"⟩
  let b : Notice := .opened ⟨utf8 "untitled:b", 0, utf8 "c"⟩
  let c : Notice := .changed ⟨utf8 "file:///w/./a", 0, ⟨[⟨some ⟨⟨0, 2⟩, ⟨0, 9⟩⟩, utf8 "é"⟩], []⟩⟩
  let shown := ((Editor.empty.after cwd a).after cwd b).after cwd c
  have carried : [opened "file:///w/a" "a😀\r\nb", opened "untitled:b" "c", typed].map Notice.of? =
      [a, b, c].map some := by decide
  have told : Editor.Session cwd Editor.empty [a, b, c] shown := by
    refine .cons trivial ?_ (.cons trivial ?_ (.cons ?_ ?_ (.nil shown)))
    · show (utf8 "a😀\r\nb").isUtf8 = true
      decide
    · show (utf8 "c").isUtf8 = true
      decide
    · intro uri concerned
      obtain rfl : utf8 "file:///w/a" = uri := by
        have spelled : c.address cwd = utf8 "file:///w/a" := by decide
        exact spelled ▸ eq_of_beq (Bool.and_eq_true_iff.mp concerned).2
      decide
    · show ∀ c ∈ [(⟨some ⟨⟨0, 2⟩, ⟨0, 9⟩⟩, utf8 "é"⟩ : Change)], c.text.isUtf8 = true
      decide
  obtain ⟨-, units, -⟩ :=
    (synchronized_with_editor ⟨.empty, cwd, []⟩ (.start .default ⟨[], false⟩) rfl carried told).2
      (utf8 "file:///w/a")
  rw [units]
  decide

end Server

end Colloquy
