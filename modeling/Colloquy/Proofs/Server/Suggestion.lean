import Colloquy.Proofs.Check.Inheritance
import Colloquy.Proofs.Config.Declaration
import Colloquy.Proofs.Outline.Replacement
import Colloquy.Proofs.Server.Editing

/-! # Suggested names

A directive that names nobody known is offered names that are known, each to be put between its brackets as it is. The
name is there for the next analysis when it fits; then the header is what it was, so the name is known, and the finding
does not come again. A name with a bracket of its own is cut off or runs over the end, and is unknown as before.
-/

namespace Colloquy

open Document.Bracket (square?)
open Document.Inline (Fits)

namespace DocumentView

variable {v : DocumentView} {t t' : Bytes} {d : Directive} {n : Bytes}

/-- Another text of the document has the same configuration when it has the same header. -/
theorem Shows.spec_resolve (shows : v.Shows t) (header : Document.Header.ofText? t' = Document.Header.ofText? t)
    (text : (Document.ofText t').headerText = (Document.ofText t).headerText) :
    (Subject.resolve v.resolver v.host v.dir v.path t').spec = v.resolution.spec := by
  have start : (Document.ofText t').headerStart = (Document.ofText t).headerStart := by
    simp only [Document.headerStart, Document.ofText, header]
  rw [resolution, shows.document, ← text, ← start]
  rfl

/-- The directive `d'` of the text `t'` stands where `d` stood, under the same key, and names `n`. The findings about
    unknown names are about other directives. -/
structure Cures (v : DocumentView) (d : Directive) (n t' : Bytes) (d' : Directive) : Prop where
  listed : d' ∈ (Outline.ofText t').directives
  start : d'.extent.start = d.extent.start
  key : d'.key = d.key
  name : Bytes.trim (d'.inner.of t') = n
  known : ∀ limit, ∀ f ∈ Check.document limit (Subject.resolve v.resolver v.host v.dir v.path t'),
    f.code = .unknownInterlocutor → ∃ r ∈ (Outline.ofText t').directives, r.extent.start ≠ d'.extent.start ∧
      f = .error .unknownInterlocutor (Span.of r.inner.start r.inner.stop)
        (utf8 "Unknown interlocutor in :ask/:aside: " ++ Bytes.trim (r.inner.of t'))

/-- What a suggestion offers is a known name, put between the brackets as it is. -/
theorem exists_name_of_mem_nameActions {a : Wire.Action} (offered : a ∈ v.nameActions d) :
    ∃ n ∈ v.resolution.spec.names, a.title = utf8 "Replace with " ++ n ∧ a.edit = some (v.edit d.inner n) := by
  simp only [nameActions] at offered
  split_ifs at offered
  · cases offered
  · cases offered
  · obtain ⟨i, inside, rfl⟩ := List.mem_mapIdx.mp offered
    exact ⟨_, Suggestion.mem_of_near (List.getElem_mem inside), rfl, rfl⟩

/-- A directive that names somebody known is cured. -/
theorem Cures.of_known {d' : Directive} (listed : d' ∈ (Outline.ofText t').directives)
    (start : d'.extent.start = d.extent.start) (key : d'.key = d.key) (name : Bytes.trim (d'.inner.of t') = n)
    (known : (Subject.resolve v.resolver v.host v.dir v.path t').spec.interlocutor? n ≠ none) :
    v.Cures d n t' d' where
  listed := listed
  start := start
  key := key
  name := name
  known limit f member code := by
    have found := Rule.mem_lookup (Bag.mem_of_mem_finish member) (code ▸ by decide)
    rw [code] at found
    obtain ⟨r, among, -, missing, rfl⟩ := Rule.mem_references.mp found
    refine ⟨r, among, fun same => known ?_, rfl⟩
    rw [← name, ← Outline.eq_of_start among listed same]
    exact missing

/-- A suggestion puts a known name between the brackets of the directive. Where it fits, the directive names it then
    and is not complained about. Where its brackets do not close each other, no directive there names it. -/
theorem name_action_cures_if_fits (shows : v.Shows t) (member : d ∈ v.outline.directives) {a : Wire.Action}
    (offered : a ∈ v.nameActions d) :
    let body := (Document.ofText t).body
    ∃ n ∈ v.resolution.spec.names, a.title = utf8 "Replace with " ++ n ∧ a.edit = some (v.edit d.inner n) ∧
      (d.inner.stop < 2 ^ 32 → Change.applyAll t ((v.edit d.inner n).changesTo v.uri) = d.refilled t n) ∧
      ((∃ d', v.Cures d n (d.refilled t n) d') → square? (0x5B :: (n ++ [0x5D])) = some (n.length + 1)) ∧
      ∃ start stop, Document.Block.EndsParagraph t .start (Document.Line.ofText body (t.drop body)) start stop ∧
        start ≤ d.extent.start ∧ d.extent.stop ≤ stop ∧
        (Fits (t.slice start d.extent.start) (d.inner.of t) n → ∃ d', v.Cures d n (d.refilled t n) d') := by
  intro body
  obtain ⟨n, listed, title, edit⟩ := exists_name_of_mem_nameActions offered
  rw [shows.outline] at member
  obtain ⟨trimmed, some⟩ : Bytes.trim n = n ∧ n ≠ [] :=
    (Resolution.isRead_resolve v.resolver v.host v.dir v.path _ _).trimmed listed
  obtain ⟨start, stop, ended, from_, to_, refilled⟩ := Directive.exists_refilled member
  refine ⟨n, listed, title, edit, fun near => ?_, ?_, start, stop, ended, from_, to_, fun fits => ?_⟩
  · exact shows.applied near (Outline.isWhole_directive member).2 n
  · rintro ⟨d', cured⟩
    exact Directive.closed_of_refilled member cured.listed cured.start trimmed some cured.name
  · obtain ⟨header, text, d', listed', same, key, contents⟩ := refilled n fits
    refine ⟨d', .of_known listed' same key (by rw [contents, trimmed]) ?_⟩
    rw [shows.spec_resolve header text]
    exact Spec.interlocutor?_ne_none listed

/-- A name behind an open parenthesis, with white space in the brackets. -/
theorem name_action_cures_if_fits_parenthesis :
    let t := utf8 "---\ninterlocutor: \x7bname: Alice, prompt: p\x7d\n---\n(x :ask[Alcie ] y"
    let host : Host := ⟨.empty, utf8 "/", []⟩
    let v := ((Server.start Settings.default ⟨[], false⟩).viewOf host ⟨utf8 "file:///d", t, 1⟩).1
    let d : Directive := ⟨utf8 "ask", ⟨50, 62⟩, ⟨55, 61⟩⟩
    let edit := v.edit d.inner (utf8 "Alice")
    let t' := utf8 "---\ninterlocutor: \x7bname: Alice, prompt: p\x7d\n---\n(x :ask[Alice] y"
    v.Shows t ∧ d ∈ v.outline.directives ∧
    (∃ a ∈ v.nameActions d, a.title = utf8 "Replace with Alice" ∧ a.edit = some edit) ∧
    Change.applyAll t (edit.changesTo v.uri) = t' ∧ ∃ d', v.Cures d (utf8 "Alice") t' d' := by
  intro t host v d edit t'
  have shows : v.Shows t := Server.shows_viewOf (Server.fresh_start Settings.default ⟨[], false⟩).coherent.cache _ _
  have only : v.outline.directives = [d] := by decide +kernel
  have member : d ∈ v.outline.directives := only ▸ List.mem_singleton_self d
  have offers : (v.nameActions d).any (fun a => a.title == utf8 "Replace with " ++ utf8 "Alice") = true := by
    decide +kernel
  obtain ⟨a, offered, same⟩ := List.any_eq_true.mp offers
  rw [beq_iff_eq] at same
  obtain ⟨n, -, title, carried, applied, -, start, stop, -, before, -, cures⟩ :=
    name_action_cures_if_fits shows member offered
  obtain rfl : utf8 "Alice" = n := List.append_cancel_left (same.symm.trans title)
  have refilled : d.refilled t (utf8 "Alice") = t' := by decide +kernel
  have fits : ∀ start ≤ 50, Fits (t.slice start 50) (d.inner.of t) (utf8 "Alice") := by decide +kernel
  rw [refilled] at applied cures
  exact ⟨shows, member, ⟨a, offered, same, carried⟩, applied (by decide), cures (fits start before)⟩

/-- A name with a closing bracket is cut off in front of it, and what is left of it is unknown. -/
theorem name_action_cut_off :
    let t := utf8 "---\ninterlocutor: \x7bname: 'A]b', prompt: p\x7d\n---\n:ask[Ab]\n"
    let host : Host := ⟨.empty, utf8 "/", []⟩
    let v := ((Server.start Settings.default ⟨[], false⟩).viewOf host ⟨utf8 "file:///d", t, 1⟩).1
    let d : Directive := ⟨utf8 "ask", ⟨47, 55⟩, ⟨52, 54⟩⟩
    let edit := v.edit d.inner (utf8 "A]b")
    let t' := utf8 "---\ninterlocutor: \x7bname: 'A]b', prompt: p\x7d\n---\n:ask[A]b]\n"
    v.Shows t ∧ d ∈ v.outline.directives ∧
    (∃ a ∈ v.nameActions d, a.title = utf8 "Replace with A]b" ∧ a.edit = some edit) ∧
    Change.applyAll t (edit.changesTo v.uri) = t' ∧
    (∀ d' ∈ (Outline.ofText t').directives, d'.extent.start = 47 ∧ Bytes.trim (d'.inner.of t') = utf8 "A") ∧
    (∃ f ∈ Check.document 0 (Subject.resolve v.resolver v.host v.dir v.path t'),
      f.code = .unknownInterlocutor ∧ f.span = ⟨52, 53⟩) ∧
    ¬ ∃ d', v.Cures d (utf8 "A]b") t' d' := by
  intro t host v d edit t'
  have shows : v.Shows t := Server.shows_viewOf (Server.fresh_start Settings.default ⟨[], false⟩).coherent.cache _ _
  have offers : (v.nameActions d).any (fun a => a.title == utf8 "Replace with " ++ utf8 "A]b") = true := by
    decide +kernel
  obtain ⟨a, offered, same⟩ := List.any_eq_true.mp offers
  rw [beq_iff_eq] at same
  obtain ⟨n, -, title, carried⟩ := exists_name_of_mem_nameActions offered
  obtain rfl : utf8 "A]b" = n := List.append_cancel_left (same.symm.trans title)
  have only : v.outline.directives = [d] := by decide +kernel
  have left : ∀ d' ∈ (Outline.ofText t').directives,
      d'.extent.start = 47 ∧ Bytes.trim (d'.inner.of t') = utf8 "A" := by decide +kernel
  have found : (Check.document 0 (Subject.resolve v.resolver v.host v.dir v.path t')).any (fun f =>
      f.code = .unknownInterlocutor ∧ f.span = ⟨52, 53⟩) = true := by decide +kernel
  obtain ⟨f, listed, raised⟩ := List.any_eq_true.mp found
  refine ⟨shows, only ▸ List.mem_singleton_self d, ⟨a, offered, same, carried⟩, by decide +kernel, left,
    ⟨f, listed, of_decide_eq_true raised⟩, ?_⟩
  rintro ⟨d', cured⟩
  have other := (left d' cured.listed).2.symm.trans cured.name
  exact absurd other (by decide)

end DocumentView

end Colloquy
