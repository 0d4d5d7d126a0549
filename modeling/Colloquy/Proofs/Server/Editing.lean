import Colloquy.Proofs.Expansion.Recursion
import Colloquy.Proofs.Outline.Boundary
import Colloquy.Proofs.Outline.Query
import Colloquy.Proofs.Server.Coherence
import Colloquy.Proofs.Text.LineIndex
import Colloquy.Proofs.Text.RoundTrip

/-! # Edits replace the stretch they were computed for

An action carries its edit in positions, and the editor sends the change back in positions. Both ends of every stretch
that an action replaces lie between two runes, so the change puts the new text in the place of exactly that stretch.
-/

namespace Colloquy

open Bytes (Boundary)

/-! ## From stretches to changes -/

theorem Position.toOffset_ofOffset {t : Bytes} {n : Nat} (boundary : Boundary t n) : (ofOffset t n).toOffset t = n :=
  Bytes.isFloor_unique (isFloor_toOffset_ofOffset t boundary.le_length) boundary.isFloor

/-- The range of a stretch, each end of which is a 32-bit word. -/
theorem LineIndex.range_of (t : Bytes) {a b : Nat} (le : a ≤ b) :
    (ofText t).range (Span.of a b) =
      ⟨Position.ofOffset t (min a (2 ^ 32 - 1) : Nat), Position.ofOffset t (min b (2 ^ 32 - 1) : Nat)⟩ := by
  have ordered : ¬ (b : Int) < a := by omega
  rw [Span.of, if_neg ordered, range, Span.toNat_clamp, Span.toNat_clamp, position_eq_ofOffset, position_eq_ofOffset]

/-- A change of a stretch that cuts no rune replaces exactly that stretch. -/
theorem Change.apply_range_near {t : Bytes} {e : Extent} (near : e.stop < 2 ^ 32) (whole : e.IsWhole t) (n : Bytes) :
    apply t ⟨some ((LineIndex.ofText t).range (Span.of e.start e.stop)), n⟩ =
      t.take e.start ++ n ++ t.drop e.stop := by
  have le := whole.le
  have start : min e.start (2 ^ 32 - 1) = e.start := by omega
  have stop : min e.stop (2 ^ 32 - 1) = e.stop := by omega
  simp only [apply, LineIndex.range_of t le, start, stop, Position.toOffset_ofOffset whole.start,
    Position.toOffset_ofOffset whole.stop, Nat.max_eq_right le]

/-- A change of the front of a text replaces it as far as a 32-bit word reaches, and no part of a rune. -/
theorem Change.apply_range_front {t : Bytes} {stop : Nat} (inside : stop ≤ t.length) (n : Bytes) :
    ∃ k, Bytes.IsFloor t (min stop (2 ^ 32 - 1)) k ∧
      apply t ⟨some ((LineIndex.ofText t).range (Span.of (0 : Nat) stop)), n⟩ = n ++ t.drop k := by
  refine ⟨_, Position.isFloor_toOffset_ofOffset t (Nat.le_trans (Nat.min_le_left ..) inside), ?_⟩
  simp only [apply, LineIndex.range_of t (Nat.zero_le stop), Nat.zero_min, Position.toOffset_ofOffset .zero,
    List.take_zero, List.nil_append, Nat.zero_max]

theorem Change.apply_range {t : Bytes} (short : t.length < 2 ^ 32) {e : Extent} (whole : e.IsWhole t) (n : Bytes) :
    apply t ⟨some ((LineIndex.ofText t).range (Span.of e.start e.stop)), n⟩ =
      t.take e.start ++ n ++ t.drop e.stop :=
  apply_range_near (Nat.lt_of_le_of_lt whole.stop.le_length short) whole n

namespace Wire

def TextEdit.change (e : TextEdit) : Change := ⟨some e.range, e.newText⟩

/-- The changes that an edit makes to the document at an address. -/
def WorkspaceEdit.changesTo (w : WorkspaceEdit) (uri : Bytes) : List Change :=
  ((w.changes.getD []).filter fun c => c.1 == uri).flatMap fun c => (c.2.getD []).map TextEdit.change

@[simp] theorem WorkspaceEdit.changesTo_single (uri : Bytes) (e : TextEdit) :
    (single uri e).changesTo uri = [e.change] := by
  simp [changesTo, single]

end Wire

/-! ## What actions replace -/

theorem mem_of_firstPassing? {α : Type} {xs : Array α} {test : α → Bool} {x : α}
    (found : firstPassing? xs test = some x) : x ∈ xs :=
  Array.mem_of_getElem? found

namespace Outline

variable {o : Outline} {offset : Int}

theorem mem_of_linkAt? {l : Link} (found : o.linkAt? offset = some l) : l ∈ o.links := by
  obtain ⟨passed, -⟩ := Option.filter_eq_some_iff.mp found
  simpa using mem_of_firstPassing? passed

theorem mem_of_directiveAt? {d : Directive} (found : o.directiveAt? offset = some d) : d ∈ o.directives := by
  rw [directiveAt?, foldl_shorter_eq_find?] at found
  have among := (List.mem_filter.mp (List.mem_of_find?_eq_some found)).1
  exact (List.takeWhile_prefix _).subset among

end Outline

theorem Suggestion.mem_of_near {candidates : List Bytes} {typed : Bytes} {limit : Int} {m : Bytes × Nat}
    (member : m ∈ near candidates typed limit) : m.1 ∈ candidates := by
  rw [near, (List.mergeSort_perm _ _).mem_iff] at member
  obtain ⟨c, among, rfl⟩ := List.mem_map.mp (List.mem_filter.mp member).1
  exact among

namespace DocumentView

/-- A view shows what an analysis of a text gives. -/
structure Shows (v : DocumentView) (t : Bytes) : Prop where
  document : v.snapshot.document = Document.ofText t
  outline : v.outline = Outline.ofText t
  lines : v.lines = LineIndex.ofText t

/-- What the actions on a document put in the place of which stretch. -/
inductive Proposes (v : DocumentView) (keys : Environment) : Extent → Bytes → Prop where
  /-- The minimal header, in the place of a header that is missing or blank. -/
  | header : Bytes.isBlank v.snapshot.document.headerText = true →
      Proposes v keys ⟨0, v.snapshot.document.body⟩ (Discovery.minimalHeader (Discovery.defaultProvider? keys))
  /-- An absolute destination, in the place of a relative one. -/
  | destination {l : Link} {url : Bytes} : l ∈ v.outline.links → Target.absolute? (l.url.of v.text) = some url →
      Proposes v keys l.url url
  /-- A known name, in the place of what stands between the brackets of a directive. -/
  | name {d : Directive} {name : Bytes} : d ∈ v.outline.directives → name ∈ v.resolution.spec.names →
      Proposes v keys d.inner name

/-- An edit of the document puts `n` in the place of a stretch, and so does the change that it makes. -/
structure Replaces (v : DocumentView) (edit : Wire.WorkspaceEdit) (e : Extent) (n : Bytes) : Prop where
  carried : edit = v.edit e n
  whole : e.IsWhole v.text
  applied : Change.applyAll v.text (edit.changesTo v.uri) = v.text.take e.start ++ n ++ v.text.drop e.stop

variable {v : DocumentView} {t : Bytes}

theorem Shows.text_eq (shows : v.Shows t) : v.text = t := congrArg Document.text shows.document

theorem Shows.applied (shows : v.Shows t) {e : Extent} (near : e.stop < 2 ^ 32) (whole : e.IsWhole t) (n : Bytes) :
    Change.applyAll t ((v.edit e n).changesTo v.uri) = t.take e.start ++ n ++ t.drop e.stop := by
  rw [edit, Wire.WorkspaceEdit.changesTo_single, range, shows.lines]
  exact Change.apply_range_near near whole n

/-- What stands behind an edit of the front of a text. -/
theorem Shows.applied_front (shows : v.Shows t) {stop : Nat} (inside : stop ≤ t.length) (n : Bytes) :
    ∃ k, Bytes.IsFloor t (min stop (2 ^ 32 - 1)) k ∧
      Change.applyAll t ((v.edit ⟨0, stop⟩ n).changesTo v.uri) = n ++ t.drop k := by
  rw [edit, Wire.WorkspaceEdit.changesTo_single, range, shows.lines]
  exact Change.apply_range_front inside n

theorem Shows.replaces (shows : v.Shows t) (short : t.length < 2 ^ 32) {e : Extent} (whole : e.IsWhole t) (n : Bytes) :
    v.Replaces (v.edit e n) e n where
  carried := rfl
  whole := shows.text_eq.symm ▸ whole
  applied := by
    rw [shows.text_eq]
    exact shows.applied (Nat.lt_of_le_of_lt whole.stop.le_length short) whole n

theorem Proposes.isWhole (shows : v.Shows t) {keys : Environment} {e : Extent} {n : Bytes}
    (proposes : v.Proposes keys e n) : e.IsWhole t := by
  cases proposes with
  | header =>
      rw [shows.document]
      exact ⟨.zero, Document.boundary_body t, Nat.zero_le _⟩
  | destination member =>
      rw [shows.outline] at member
      exact Outline.isWhole_url member
  | name member =>
      rw [shows.outline] at member
      exact (Outline.isWhole_directive member).2

/-- If an action carries an edit, that puts something proposed in its place. -/
def Carries (v : DocumentView) (keys : Environment) (a : Wire.Action) : Prop :=
  ∀ edit, a.edit = some edit → ∃ e n, v.Proposes keys e n ∧ edit = v.edit e n

variable {keys : Environment} {a : Wire.Action}

theorem Proposes.carries {e : Extent} {n : Bytes} (proposes : v.Proposes keys e n)
    (carried : a.edit = some (v.edit e n)) : v.Carries keys a := by
  intro edit same
  rw [carried] at same
  exact ⟨e, n, proposes, (Option.some.inj same).symm⟩

theorem carries_header (member : a ∈ v.headerActions keys) : v.Carries keys a := by
  simp only [headerActions] at member
  split at member
  · cases member
  · rename_i blank
    rw [List.mem_singleton.mp member]
    exact (Proposes.header (by simpa using blank)).carries rfl

theorem carries_link {findings : List Wire.Finding} {l : Link} (known : l ∈ v.outline.links)
    (offered : v.linkAction? findings l = some a) : v.Carries keys a := by
  obtain ⟨url, fixed, built⟩ := Option.bind_eq_some_iff.mp offered
  obtain rfl := Option.some.inj built
  exact (Proposes.destination known fixed).carries rfl

theorem carries_name {d : Directive} (known : d ∈ v.outline.directives) (member : a ∈ v.nameActions d) :
    v.Carries keys a := by
  simp only [nameActions] at member
  split_ifs at member
  · cases member
  · cases member
  · obtain ⟨i, inside, rfl⟩ := List.mem_mapIdx.mp member
    exact (Proposes.name known (Suggestion.mem_of_near (List.getElem_mem inside))).carries rfl

theorem carries_directive {d : Directive} (known : d ∈ v.outline.directives) (member : a ∈ v.directiveActions d) :
    v.Carries keys a := by
  unfold directiveActions at member
  split_ifs at member
  · exact carries_name known member
  · cases member
  · rw [List.mem_singleton.mp member]
    nofun

theorem carries_actions {context : Params.ActionContext} {actions : List Wire.Action}
    (offered : v.actions? keys context = some actions) : ∀ a ∈ actions, v.Carries keys a := by
  have all : ∀ a ∈ v.headerActions keys ++
      ((v.outline.linkAt? (v.offset context.range.start)).bind (v.linkAction? context.findings.items)).toList ++
      ((v.outline.directiveAt? (v.offset context.range.start)).map v.directiveActions).getD [], v.Carries keys a := by
    intro a member
    obtain member | member := List.mem_append.mp member
    · obtain member | member := List.mem_append.mp member
      · exact carries_header member
      · obtain ⟨l, found, offered⟩ := Option.bind_eq_some_iff.mp (Option.mem_toList.mp member)
        exact carries_link (Outline.mem_of_linkAt? found) offered
    · cases found : v.outline.directiveAt? (v.offset context.range.start) with
      | none =>
          rw [found] at member
          cases member
      | some d =>
          rw [found] at member
          exact carries_directive (Outline.mem_of_directiveAt? found) member
  simp only [actions?] at offered
  split_ifs at offered
  · cases offered
    exact all
  · cases offered
    exact fun a member => all a (List.mem_filter.mp member).1

theorem edit_of_expansion? {start stop : Int} {edit : Wire.WorkspaceEdit}
    (expanded : v.expansion? start stop = some (.ok edit)) :
    ∃ d ∈ v.outline.directives, (d.extent.start : Int) = start ∧ (d.extent.stop : Int) = stop ∧
      ∃ n, (Expansions.of v.resolution.spec.macros).expandDirective d.key (d.inner.of v.text) = .ok n ∧
        edit = v.edit d.extent n := by
  obtain ⟨d, found, result⟩ := Option.map_eq_some_iff.mp expanded
  have ends := List.find?_some found
  rw [Bool.and_eq_true, beq_iff_eq, beq_iff_eq] at ends
  refine ⟨d, List.mem_of_find?_eq_some found, ends.1, ends.2, ?_⟩
  cases value : (Expansions.of v.resolution.spec.macros).expandDirective d.key (d.inner.of v.text) with
  | error f =>
      rw [value] at result
      cases result
  | ok n =>
      rw [value] at result
      cases result
      exact ⟨n, rfl, rfl⟩

end DocumentView

namespace Server

variable {s s' : Server} {host : Host}

theorem shows_viewOf (sound : s.cache.IsSound) (host : Host) (d : OpenDocument) :
    (s.viewOf host d).1.Shows d.text := by
  obtain ⟨n, analysed⟩ := Cache.exists_analyze_get sound d.uri d.version d.text
  simp only [viewOf, analysed]
  exact ⟨rfl, rfl, rfl⟩

theorem version_viewOf (sound : s.cache.IsSound) (host : Host) (d : OpenDocument) :
    (s.viewOf host d).1.snapshot.version = d.version := by
  obtain ⟨n, analysed⟩ := Cache.exists_analyze_get sound d.uri d.version d.text
  simp only [viewOf, analysed]
  rfl

/-- An edit that is filled in expands the directive that the action names, in the document as it is open. -/
theorem expansion?_of_resolveAction {a a' : Wire.Action} {edit : Wire.WorkspaceEdit} (missing : a.edit = none)
    (resolved : s.resolveAction host a ({} : Features).expansion = (.ok a', s')) (filled : a'.edit = some edit) :
    ∃ target d, a.target = some target ∧ s.document? (Uri.canonical host.cwd target.uri) = some d ∧
      (s.viewOf host d).1.snapshot.version.toInt = target.version ∧
      (s.viewOf host d).1.expansion? target.start target.stop = some (.ok edit) := by
  have unfilled : ∀ t : Server, ((.ok a, t) : Except Bytes Wire.Action × Server) ≠ (.ok a', s') := by
    intro t same
    cases same
    rw [missing] at filled
    cases filled
  simp only [resolveAction, missing] at resolved
  split at resolved
  · rename_i target known _
    split at resolved
    · exact absurd resolved (unfilled _)
    · rename_i v t viewed
      obtain ⟨d, opened, same⟩ := Option.map_eq_some_iff.mp viewed
      have shown : (s.viewOf host d).1 = v := congrArg Prod.fst same
      split at resolved
      · exact absurd resolved (unfilled _)
      · rename_i current
        split at resolved
        · rename_i edit' expanded
          cases resolved
          obtain rfl := Option.some.inj filled
          refine ⟨target, d, known, opened, ?_, ?_⟩
          · rw [shown]
            simpa using current
          · rw [shown]
            exact Except.ok.inj expanded
        · exact absurd resolved (unfilled _)
        · exact absurd resolved (unfilled _)
        · cases resolved
  · exact absurd resolved (unfilled _)

/-- A change of a range whose ends are rune boundaries puts its text in the place of exactly that range. So does every
edit that an action on a document carries, and every edit that is filled in for an expansion. -/
theorem edits_replace_their_stretch :
    (∀ (t n : Bytes) (i j : Nat), t.length < 2 ^ 32 → Boundary t i → Boundary t j → i ≤ j →
      Change.applyAll t [⟨some ((LineIndex.ofText t).range (Span.of i j)), n⟩] = t.take i ++ n ++ t.drop j) ∧
    ∀ (f : Features) (s : Server) (es : List Event) (host : Host), s.Fresh →
      (∀ d : OpenDocument, d.text.length < 2 ^ 32 →
        let v := ((s.after es f).viewOf host d).1
        v.text = d.text ∧ ∀ keys context actions, v.actions? keys context = some actions →
          ∀ a ∈ actions, ∀ edit, a.edit = some edit → ∃ e n, v.Proposes keys e n ∧ v.Replaces edit e n) ∧
      ∀ a a' s' edit, a.edit = none →
        (s.after es f).resolveAction host a ({} : Features).expansion = (.ok a', s') → a'.edit = some edit →
        ∃ target d, a.target = some target ∧
          (s.after es f).document? (Uri.canonical host.cwd target.uri) = some d ∧ d.version.toInt = target.version ∧
          (d.text.length < 2 ^ 32 →
            let v := ((s.after es f).viewOf host d).1
            v.text = d.text ∧ ∃ dir ∈ v.outline.directives,
              (dir.extent.start : Int) = target.start ∧ (dir.extent.stop : Int) = target.stop ∧
              ∃ n, (Expansions.of v.resolution.spec.macros).expandDirective dir.key (dir.inner.of v.text) = .ok n ∧
                v.Replaces edit dir.extent n) := by
  refine ⟨fun t n i j short start stop le => ?_, fun f s es host fresh => ?_⟩
  · exact Change.apply_range short (e := ⟨i, j⟩) ⟨start, stop, le⟩ n
  have sound := (fresh.coherent.after f es).cache
  refine ⟨fun d short => ?_, fun a a' s' edit missing resolved filled => ?_⟩
  · have shows := shows_viewOf sound host d
    refine ⟨shows.text_eq, fun keys context actions offered a member edit carried => ?_⟩
    obtain ⟨e, n, proposes, rfl⟩ := DocumentView.carries_actions offered a member edit carried
    exact ⟨e, n, proposes, shows.replaces short (proposes.isWhole shows) n⟩
  · obtain ⟨target, d, known, opened, current, expanded⟩ := expansion?_of_resolveAction missing resolved filled
    have shows := shows_viewOf sound host d
    rw [version_viewOf sound] at current
    refine ⟨target, d, known, opened, current, fun short => ⟨shows.text_eq, ?_⟩⟩
    obtain ⟨dir, member, start, stop, n, value, rfl⟩ := DocumentView.edit_of_expansion? expanded
    have listed := member
    rw [shows.outline] at listed
    exact ⟨dir, member, start, stop, n, value, shows.replaces short (Outline.isWhole_directive listed).1 n⟩

section

/-- A document that declares an expansion and invokes it. -/
def withExpansion : OpenDocument :=
  ⟨utf8 "file:///d", utf8 "---\nmacros:\n- name: m\n  expansion: hï\n---\né\r\n:m[]", 1⟩

def openedWithExpansion : Server :=
  (start Settings.default ⟨[], false⟩).after [.ofMessage "textDocument/didOpen" [Message.about "file:///d"
    [("text", .str "---\nmacros:\n- name: m\n  expansion: hï\n---\né\r\n:m[]"), ("version", .ofNat 1)]]]

theorem document?_openedWithExpansion :
    openedWithExpansion.document? (Uri.canonical (utf8 "/") (utf8 "file:///d")) = some withExpansion := by
  have fields : (openedWithExpansion.document? (Uri.canonical (utf8 "/") (utf8 "file:///d"))).map
      (fun d => (d.uri, d.text, d.version)) = some (withExpansion.uri, withExpansion.text, withExpansion.version) := by
    decide +kernel
  obtain ⟨⟨uri, text, version⟩, found, same⟩ := Option.map_eq_some_iff.mp fields
  simp only [Prod.mk.injEq] at same
  obtain ⟨rfl, rfl, rfl⟩ := same
  exact found

/-- The view of the document, the only directive in it and what that expands to. -/
theorem expansion?_withExpansion {view : DocumentView × Server}
    (shown : openedWithExpansion.viewOf ⟨.empty, utf8 "/", []⟩ withExpansion = view) :
    view.1.text = withExpansion.text ∧ view.1.uri = withExpansion.uri ∧ view.1.snapshot.version = 1 ∧
      view.1.expansion? 47 51 = some (.ok (view.1.edit ⟨47, 51⟩ (utf8 "hï"))) := by
  have directives : view.1.outline.directives = [⟨utf8 "m", ⟨47, 51⟩, ⟨50, 50⟩⟩] := by
    rw [← shown]
    decide +kernel
  have invoked : ((Expansions.of view.1.resolution.spec.macros).invoked? (utf8 "m") []).map
      (fun m => Expansions.body m (Expansions.argument (utf8 "m") [])) = some (utf8 "hï") := by
    rw [← shown]
    decide +kernel
  have text : view.1.text = withExpansion.text ∧ view.1.uri = withExpansion.uri ∧ view.1.snapshot.version = 1 := by
    rw [← shown]
    decide +kernel
  have value : (Expansions.of view.1.resolution.spec.macros).expandDirective (utf8 "m") [] = .ok (utf8 "hï") := by
    obtain ⟨m, found, body⟩ := Option.map_eq_some_iff.mp invoked
    have plain : Expansions.directives (utf8 "hï") = [] := by decide +kernel
    rw [Expansions.expandDirective, found]
    simp only
    rw [body, Expansions.expand_eq, plain]
    rfl
  have inner : (⟨50, 50⟩ : Extent).of withExpansion.text = [] := by decide +kernel
  have picked : List.find? (fun d : Directive => (d.extent.start : Int) == 47 && (d.extent.stop : Int) == 51)
      [⟨utf8 "m", ⟨47, 51⟩, ⟨50, 50⟩⟩] = some ⟨utf8 "m", ⟨47, 51⟩, ⟨50, 50⟩⟩ := rfl
  refine ⟨text.1, text.2.1, text.2.2, ?_⟩
  rw [DocumentView.expansion?, directives, picked, Option.map_some, text.1, inner, value]
  rfl

/-- A stretch between a letter of two bytes and the end of a line, a link behind such a letter, and an expansion. -/
theorem edits_replace_their_stretch_expansion :
    let host : Host := ⟨.empty, utf8 "/", []⟩
    let lines := utf8 "é\r\nx"
    let link := (((start Settings.default ⟨[], false⟩).after []).viewOf host
      ⟨utf8 "file:///d", utf8 "é [a](./b.md)", 1⟩).1
    let context : Params.ActionContext := { range := ⟨⟨0, 5⟩, ⟨0, 5⟩⟩ }
    let action : Wire.Action := { target := some ⟨utf8 "file:///d", 1, 47, 51⟩ }
    Change.applyAll lines [⟨some ((LineIndex.ofText lines).range (Span.of (2 : Nat) (4 : Nat))), utf8 "ü"⟩] =
      utf8 "éüx" ∧
    (∃ actions a edit, link.actions? [] context = some actions ∧ a ∈ actions ∧
      a.title = utf8 "Convert to file://$PWD URL" ∧ a.edit = some edit ∧
      ∃ e n, link.Proposes [] e n ∧ link.Replaces edit e n) ∧
    ∃ a' s' edit, openedWithExpansion.resolveAction host action ({} : Features).expansion = (.ok a', s') ∧
      a'.edit = some edit ∧
      Change.applyAll withExpansion.text (edit.changesTo withExpansion.uri) =
        withExpansion.text.take 47 ++ utf8 "hï" := by
  intro host lines link context action
  refine ⟨?stretch, ?link, ?expansion⟩
  case stretch =>
    have letter : Boundary lines 2 := (Bytes.boundary_ascii (b := Bytes.cr) rfl (by decide)).1
    have line : Boundary lines 4 := (Bytes.boundary_ascii (b := Bytes.lf) rfl (by decide)).2
    exact edits_replace_their_stretch.1 lines (utf8 "ü") 2 4 (by decide) letter line (by decide)
  case link =>
    have found : ((link.actions? [] context).getD []).any (fun a =>
        a.title == utf8 "Convert to file://$PWD URL" && a.edit.isSome) = true := by decide +kernel
    obtain ⟨a, member, passed⟩ := List.any_eq_true.mp found
    rw [Bool.and_eq_true, beq_iff_eq, Option.isSome_iff_exists] at passed
    obtain ⟨title, edit, carried⟩ := passed
    cases offered : link.actions? [] context with
    | none =>
        rw [offered] at member
        cases member
    | some actions =>
        rw [offered] at member
        have replaced := ((edits_replace_their_stretch.2 {} _ [] host (fresh_start Settings.default ⟨[], false⟩)).1
          ⟨utf8 "file:///d", utf8 "é [a](./b.md)", 1⟩ (by decide)).2 [] context
        exact ⟨actions, a, edit, rfl, member, title, carried, replaced actions offered a member edit carried⟩
  case expansion =>
    generalize shown : openedWithExpansion.viewOf host withExpansion = view
    obtain ⟨text, uri, version, expanded⟩ := expansion?_withExpansion shown
    have current : (view.1.snapshot.version.toInt != 1) = false := by
      rw [version]
      decide
    have resolved : openedWithExpansion.resolveAction host action ({} : Features).expansion =
        (.ok { action with edit := some (view.1.edit ⟨47, 51⟩ (utf8 "hï")) }, view.2) := by
      simp only [resolveAction, view?, host, document?_openedWithExpansion, Option.map_some, action]
      simp only [host] at shown
      simp only [shown, current, expanded]
      rfl
    refine ⟨_, _, _, resolved, rfl, ?_⟩
    have filled := (edits_replace_their_stretch.2 {} _ _ host (fresh_start _ _)).2 _ _ _ _ rfl resolved rfl
    obtain ⟨target, d, known, found, -, replaces⟩ := filled
    cases known
    obtain rfl := Option.some.inj (document?_openedWithExpansion.symm.trans found)
    obtain ⟨-, dir, -, start, stop, n, -, replaced⟩ := replaces (by decide)
    have replaced : (openedWithExpansion.viewOf host withExpansion).1.Replaces _ dir.extent n := replaced
    have extent : dir.extent = ⟨47, 51⟩ := by
      have first : dir.extent.start = 47 := Int.ofNat.inj start
      have last : dir.extent.stop = 51 := Int.ofNat.inj stop
      rw [← first, ← last]
    rw [shown, extent] at replaced
    obtain rfl : utf8 "hï" = n := by
      simpa [DocumentView.edit, Wire.WorkspaceEdit.single] using replaced.carried
    have behind : withExpansion.text.drop 51 = [] := by decide +kernel
    have applied := replaced.applied
    rw [text, uri] at applied
    simp only [behind, List.append_nil] at applied
    exact applied

end

end Server

end Colloquy
