import Colloquy.Proofs.Check.Inheritance
import Colloquy.Proofs.Config.Declaration
import Colloquy.Proofs.Document.Header
import Colloquy.Proofs.Expansion.Body
import Colloquy.Proofs.Server.Editing

/-! # The minimal header

A document whose header is missing or blank is offered a minimal one, which is put in front of the body. What is put
there is a closed header whatever stands behind it, so the body stays what it was and moves as a whole. The header is
not blank and names an interlocutor whatever the source is, so neither the offer nor the finding comes again.

The stretch that is replaced is a span of 32-bit words. Where the body starts behind all of them, the edit ends before
the body does, and what it leaves of the old header is body from then on.
-/

namespace Colloquy

namespace Layer

/-! ## Names that a text declares -/

/-- Both layers declare interlocutors of the same names, and both could be read or neither. -/
structure Alike (l l' : Layer) : Prop where
  names : l.interlocutors.map Interlocutor.name = l'.interlocutors.map Interlocutor.name
  sound : l.isSound = l'.isSound

variable {g g' : Ground} {l l' : Layer}

theorem Ground.names_interlocutor? (n : Yaml.Node) :
    (g.interlocutor? n).map Interlocutor.name = (g'.interlocutor? n).map Interlocutor.name := by
  cases n with
  | mapping place entries => exact congrArg some (by rw [Ground.name_interlocutor, Ground.name_interlocutor])
  | _ => rfl

theorem Alike.addEntry (alike : Alike l l') (e : Yaml.Node × Yaml.Node) :
    Alike (g.addEntry l e) (g'.addEntry l' e) := by
  refine ⟨?_, by rw [isSound, isSound, fault_addEntry, fault_addEntry]; exact alike.sound⟩
  unfold Ground.addEntry
  dsimp only
  split_ifs
  · rw [List.map_append, List.map_append, alike.names, ← Option.toList_map, ← Option.toList_map,
      Ground.names_interlocutor?]
  · rw [List.map_append, List.map_append, alike.names, List.map_filterMap, List.map_filterMap,
      funext Ground.names_interlocutor?]
  all_goals exact alike.names

theorem alike_ofRoot (source source' : Source) (text : Bytes) (base base' : Int) (root : Option Yaml.Node) :
    Alike (ofRoot source text base root) (ofRoot source' text base' root) := by
  unfold ofRoot
  dsimp only
  split
  · rename_i entries
    have start : Alike (blank source) (blank source') := ⟨rfl, rfl⟩
    generalize blank source = l, blank source' = l' at start
    induction entries generalizing l l' with
    | nil => exact start
    | cons e entries ih => exact ih _ _ (start.addEntry e)
  · exact ⟨rfl, rfl⟩
  · exact ⟨rfl, rfl⟩

/-- The names that a text declares do not depend on where the text is. -/
theorem alike_ofText (source source' : Source) (text : Bytes) (base base' : Int) :
    Alike (ofText source text base) (ofText source' text base') := by
  unfold ofText
  split
  · exact ⟨rfl, rfl⟩
  · split
    · exact alike_ofRoot ..
    · exact ⟨rfl, rfl⟩

theorem Alike.interlocutor?_ne_none (alike : Alike l l') (sound : l'.isSound = true) {name : Bytes} (filled : name ≠ [])
    (listed : name ∈ l'.interlocutors.map Interlocutor.name) (outer : List Layer) :
    (Spec.merge ((outer ++ [l]).map some)).interlocutor? name ≠ none := by
  intro missing
  obtain ⟨it, member, named⟩ := List.mem_map.mp (alike.names ▸ listed)
  refine Spec.interlocutor?_eq_none_iff.mp missing it ?_ named
  have readable : l.fault = none := Option.isNone_iff_eq_none.mp (alike.sound.trans sound)
  exact Spec.mem_named.mpr ⟨⟨l, Spec.mem_map_some.mpr List.mem_concat_self, readable, member⟩, named ▸ filled⟩

end Layer

/-! ## The texts of the minimal header -/

namespace Discovery

/-- The providers among which the default is chosen, and none. -/
def choices : List (Option Bytes) := none :: providerKeys.map fun p => some (utf8 p.1)

theorem defaultProvider?_mem_choices (env : Environment) : defaultProvider? env ∈ choices := by
  unfold defaultProvider?
  cases found : providerKeys.find? fun p => isSet env p.2 with
  | none => exact List.mem_cons_self
  | some p => exact List.mem_cons_of_mem _ (List.mem_map_of_mem (List.mem_of_find?_eq_some found))

/-- A text that is nothing but a closed header, and one that names an assistant. -/
structure IsHeader (m : Bytes) : Prop where
  whole : m.IsLines
  found : Document.Header.ofText? m = some ⟨true, ⟨4, m.length - 4⟩, m.length⟩
  fences : utf8 "---\n" ++ (Document.ofText m).headerText ++ utf8 "---\n" = m
  filled : Bytes.isBlank (Document.ofText m).headerText = false
  sound : (Layer.ofText ⟨.header, []⟩ (Document.ofText m).headerText 4).isSound = true
  named : utf8 "Assistant" ∈
    (Layer.ofText ⟨.header, []⟩ (Document.ofText m).headerText 4).interlocutors.map Interlocutor.name

theorem isHeader_minimalHeader (env : Environment) : IsHeader (minimalHeader (defaultProvider? env)) := by
  have all : ∀ p ∈ choices, (minimalHeader p).IsLines ∧
      Document.Header.ofText? (minimalHeader p) =
        some ⟨true, ⟨4, (minimalHeader p).length - 4⟩, (minimalHeader p).length⟩ ∧
      utf8 "---\n" ++ (Document.ofText (minimalHeader p)).headerText ++ utf8 "---\n" = minimalHeader p ∧
      Bytes.isBlank (Document.ofText (minimalHeader p)).headerText = false ∧
      (Layer.ofText ⟨.header, []⟩ (Document.ofText (minimalHeader p)).headerText 4).isSound = true ∧
      utf8 "Assistant" ∈ (Layer.ofText ⟨.header, []⟩
        (Document.ofText (minimalHeader p)).headerText 4).interlocutors.map Interlocutor.name := by
    decide +kernel
  obtain ⟨whole, found, fences, filled, sound, named⟩ := all _ (defaultProvider?_mem_choices env)
  exact ⟨whole, found, fences, filled, sound, named⟩

namespace IsHeader

variable {m : Bytes} (is : IsHeader m) (u : Bytes)
include is

theorem ofText?_append : Document.Header.ofText? (m ++ u) = some ⟨true, ⟨4, m.length - 4⟩, m.length⟩ :=
  Document.Header.ofText?_behind_closed is.whole is.found rfl u

theorem body_append : (Document.ofText (m ++ u)).body = m.length := by
  rw [Document.body, Document.ofText, is.ofText?_append u]
  rfl

theorem drop_body_append : (m ++ u).drop (Document.ofText (m ++ u)).body = u := by
  rw [is.body_append u, List.drop_left]

theorem headerText_append : (Document.ofText (m ++ u)).headerText = (Document.ofText m).headerText := by
  rw [Document.headerText, Document.headerText, Document.ofText, Document.ofText, is.found, is.ofText?_append u]
  exact Document.Inline.slice_append_of_le _ (Nat.sub_le ..)

theorem nodes_append :
    (Document.ofText (m ++ u)).nodes = (Document.bodyNodes u 0).map (Document.Node.move m.length) := by
  rw [Document.nodes_ofText, is.drop_body_append u, is.body_append u]

/-- In front of the body of another text the header moves what is in the body. -/
theorem nodes_append_body (t : Bytes) :
    let t' := m ++ t.drop (Document.ofText t).body
    (Document.ofText t').nodes = (Document.ofText t).nodes.map
      (Document.Node.relocate fun o => o + (Document.ofText t').body - (Document.ofText t).body) := by
  intro t'
  rw [is.nodes_append, is.body_append, Document.nodes_ofText t, List.map_map]
  refine List.map_congr_left fun n _ => ?_
  simp only [Function.comp_apply, Document.Node.relocate, Document.Node.move, Document.Node.mk.injEq, true_and,
    and_true]
  omega

/-- The header is there, and somebody to talk to. -/
theorem not_mem_headerPresence (outer : List Layer) (docPath : Bytes) (d : Diagnostic) :
    d ∉ Rule.headerPresence (Subject.ofLayers outer docPath (m ++ u)) := by
  intro member
  obtain ⟨absent | empty, -⟩ := Rule.mem_headerPresence.mp member
  · have present := is.ofText?_append u
    rw [show Document.Header.ofText? (m ++ u) = none from absent] at present
    cases present
  · have text : (Subject.ofLayers outer docPath (m ++ u)).header =
        Layer.ofText ⟨.header, docPath⟩ (Document.ofText m).headerText (Document.ofText (m ++ u)).headerStart := by
      rw [← is.headerText_append u]
      rfl
    have alike := Layer.alike_ofText ⟨.header, docPath⟩ ⟨.header, []⟩ (Document.ofText m).headerText
      (Document.ofText (m ++ u)).headerStart 4
    rw [← text] at alike
    refine alike.interlocutor?_ne_none is.sound (by decide) is.named outer ?_
    rw [Spec.interlocutor?]
    exact List.find?_eq_none.mpr fun it member => absurd (empty ▸ member) List.not_mem_nil

theorem code_ne_headerMissing (limit : Int) (outer : List Layer) (docPath : Bytes) :
    ∀ d ∈ Check.document limit (Subject.ofLayers outer docPath (m ++ u)), d.code ≠ .headerMissing := by
  intro d member code
  have found := Rule.mem_lookup (Bag.mem_of_mem_finish member) (code ▸ by decide)
  rw [code] at found
  exact is.not_mem_headerPresence u outer docPath d found

theorem headerActions_eq_nil {v : DocumentView} (shows : v.Shows (m ++ u)) (keys : Environment) :
    v.headerActions keys = [] := by
  rw [DocumentView.headerActions, shows.document, is.headerText_append, is.filled]
  rfl

end IsHeader

end Discovery

/-! ## The action -/

theorem Document.body_le_of_mem_nodes {t : Bytes} {n : Node} (member : n ∈ (ofText t).nodes) :
    (ofText t).body ≤ n.start ∧ (ofText t).body ≤ n.stop := by
  rw [nodes_ofText] at member
  obtain ⟨n, -, rfl⟩ := List.mem_map.mp member
  exact ⟨Nat.le_add_left .., Nat.le_add_left ..⟩

namespace DocumentView

theorem headerActions_eq {v : DocumentView} {t : Bytes} (shows : v.Shows t) {keys : Environment}
    (offered : v.headerActions keys ≠ []) :
    v.headerActions keys = [correction (utf8 "Insert minimal lectic header") true
      (v.edit ⟨0, (Document.ofText t).body⟩ (Discovery.minimalHeader (Discovery.defaultProvider? keys)))] := by
  unfold headerActions at offered ⊢
  dsimp only at offered ⊢
  split
  · rename_i filled
    rw [if_pos filled] at offered
    exact absurd rfl offered
  · rw [shows.document]

/-- The minimal header goes in front of the text, in the place of what is in front of the body as far as a 32-bit word
    reaches, and is the whole header then. No header is offered again, and none is found missing. The body stays just
    when a 32-bit word tells where it starts, and its nodes move with it. -/
theorem minimal_header_final {v : DocumentView} {t : Bytes} (shows : v.Shows t) {keys : Environment}
    (offered : v.headerActions keys ≠ []) :
    let body := (Document.ofText t).body
    let m := Discovery.minimalHeader (Discovery.defaultProvider? keys)
    let edit := v.edit ⟨0, body⟩ m
    let t' := Change.applyAll t (edit.changesTo v.uri)
    v.headerActions keys = [correction (utf8 "Insert minimal lectic header") true edit] ∧
    (∃ h, (Document.ofText t').header = some h ∧ h.closed = true) ∧
    utf8 "---\n" ++ (Document.ofText t').headerText ++ utf8 "---\n" = m ∧
    (∀ (v' : DocumentView) keys', v'.Shows t' → v'.headerActions keys' = []) ∧
    (∀ limit outer docPath, ∀ d ∈ Check.document limit (Subject.ofLayers outer docPath t'),
      d.code ≠ .headerMissing) ∧
    (∃ k, Bytes.IsFloor t (min body (2 ^ 32 - 1)) k ∧ t' = m ++ t.drop k ∧
      t'.drop (Document.ofText t').body = t.drop k) ∧
    (t'.drop (Document.ofText t').body = t.drop body ↔ body < 2 ^ 32) ∧
    (body < 2 ^ 32 →
      (∀ n ∈ (Document.ofText t).nodes, body ≤ n.start ∧ body ≤ n.stop) ∧
      (Document.ofText t').nodes =
        (Document.ofText t).nodes.map (Document.Node.relocate fun o => o + (Document.ofText t').body - body)) := by
  intro body m edit t'
  have is : Discovery.IsHeader m := Discovery.isHeader_minimalHeader keys
  have offer : v.headerActions keys = [correction (utf8 "Insert minimal lectic header") true edit] :=
    headerActions_eq shows offered
  have inside : body ≤ t.length := Document.body_le t
  obtain ⟨k, floor, applied⟩ : ∃ k, Bytes.IsFloor t (min body (2 ^ 32 - 1)) k ∧ t' = m ++ t.drop k :=
    shows.applied_front inside m
  have stays : k = body ↔ body < 2 ^ 32 := (floor.eq_left_iff (Document.boundary_body t)).trans Nat.lt_succ_iff.symm
  -- From here on the header is any text that is one: its bytes are not looked at again.
  clear_value m t'
  subst applied
  refine ⟨offer, ⟨_, is.ofText?_append _, rfl⟩, ?_, fun _ keys' shows' => is.headerActions_eq_nil _ shows' keys',
    is.code_ne_headerMissing _, ⟨k, floor, rfl, is.drop_body_append _⟩, ?_, fun near => ?_⟩
  · rw [is.headerText_append]
    exact is.fences
  · rw [is.drop_body_append, ← stays]
    refine ⟨fun same => ?_, fun same => by rw [same]⟩
    -- Stretches that end with the text and are the same start together.
    have lengths := congrArg List.length same
    rw [List.length_drop, List.length_drop] at lengths
    have := floor.1.1.le_length
    omega
  · obtain rfl := stays.mpr near
    exact ⟨fun _ => Document.body_le_of_mem_nodes, is.nodes_append_body t⟩

/-- A blank header whose lines end with carriage returns. -/
theorem minimal_header_final_blank :
    let t := utf8 "---\r\n \r\n---\r\n:b[c]"
    let host : Host := ⟨.empty, utf8 "/", []⟩
    let v := ((Server.start Settings.default ⟨[], false⟩).viewOf host ⟨utf8 "file:///d", t, 1⟩).1
    let keys : Environment := [(utf8 "OPENAI_API_KEY", utf8 "k")]
    let m := Discovery.minimalHeader (some (utf8 "openai"))
    v.Shows t ∧ v.headerActions keys ≠ [] ∧
    Change.applyAll t ((v.edit ⟨0, 13⟩ m).changesTo v.uri) = m ++ utf8 ":b[c]" ∧
    (Document.ofText t).nodes = [⟨.directive, utf8 "b", 13, 18, 0⟩] ∧
    (Document.ofText (m ++ utf8 ":b[c]")).nodes = [⟨.directive, utf8 "b", m.length, m.length + 5, 0⟩] := by
  intro t host v keys m
  have shows : v.Shows t := Server.shows_viewOf (Server.fresh_start Settings.default ⟨[], false⟩).coherent.cache _ _
  have offered : v.headerActions keys ≠ [] := by
    have some : (v.headerActions keys).isEmpty = false := by decide +kernel
    exact fun none => by simp [none] at some
  have body : (Document.ofText t).body = 13 := by decide +kernel
  have behind : t.drop 13 = utf8 ":b[c]" := by decide +kernel
  have provider : Discovery.defaultProvider? keys = some (utf8 "openai") := by decide +kernel
  have nodes : (Document.ofText t).nodes = [⟨.directive, utf8 "b", 13, 18, 0⟩] := by decide +kernel
  obtain ⟨-, -, -, -, -, ⟨k, -, applied, left⟩, stays, moves⟩ := minimal_header_final shows offered
  have near : (Document.ofText t).body < 2 ^ 32 := by rw [body]; decide
  -- What is left of the text is the body.
  rw [left] at stays
  rw [stays.mpr near] at applied
  have moved := (moves near).2
  rw [applied] at moved
  simp only [body, behind, provider, nodes] at applied moved
  refine ⟨shows, offered, applied, nodes, ?_⟩
  rw [moved, Discovery.IsHeader.body_append (provider ▸ Discovery.isHeader_minimalHeader keys)]
  simp only [List.map_cons, List.map_nil, Document.Node.relocate, List.cons.injEq, Document.Node.mk.injEq, true_and,
    and_true, m]
  omega

end DocumentView

/-! ## A header that is longer than a span reaches -/

namespace Document

/-- A header that is never closed, with nothing on its lines. -/
def unclosed (n : Nat) : Bytes := utf8 "---\n" ++ List.replicate n Bytes.lf

variable {n : Nat}

theorem length_unclosed : (unclosed n).length = n + 4 := by
  have front : (utf8 "---\n").length = 4 := rfl
  rw [unclosed, List.length_append, List.length_replicate, front, Nat.add_comm]

theorem drop_unclosed {k : Nat} (behind : 4 ≤ k) : (unclosed n).drop k = List.replicate (n + 4 - k) Bytes.lf := by
  have front : (utf8 "---\n").length = 4 := rfl
  rw [unclosed, List.drop_append, List.drop_of_length_le (front.trans_le behind), front, List.nil_append,
    List.drop_replicate, Nat.sub_sub_right _ behind]

theorem isAscii_unclosed : Bytes.IsAscii (unclosed n) := by
  intro b member
  obtain front | line := List.mem_append.mp member
  · have all : (utf8 "---\n").all (· < 0x80) = true := by decide
    exact of_decide_eq_true (List.all_eq_true.mp all b front)
  · rw [List.eq_of_mem_replicate line]
    decide

theorem Line.content_of_mem_replicate {start : Nat} {l : Line}
    (member : l ∈ ofText start (List.replicate n Bytes.lf)) : l.content = [] := by
  induction n generalizing start with
  | zero => exact absurd member List.not_mem_nil
  | succ n ih =>
      rw [List.replicate_succ, ← List.nil_append (Bytes.lf :: _), ofText_line List.not_mem_nil] at member
      obtain rfl | later := List.mem_cons.mp member
      · rfl
      · exact ih later

theorem Header.ofText?_unclosed : ofText? (unclosed n) = some ⟨false, ⟨4, n + 4⟩, n + 4⟩ := by
  have free : Bytes.lf ∉ utf8 "---" := by decide
  have lines : Line.ofText 0 (unclosed n) = ⟨0, utf8 "---", 4⟩ :: Line.ofText 4 (List.replicate n Bytes.lf) :=
    Line.ofText_line free 0 _
  have none : (Line.ofText 4 (List.replicate n Bytes.lf)).find? closes = none := by
    refine List.find?_eq_none.mpr fun l member => ?_
    rw [closes, bare, Line.content_of_mem_replicate member]
    decide
  have opens : (bare ⟨0, utf8 "---", 4⟩ == utf8 "---" && 4 != Line.stop ⟨0, utf8 "---", 4⟩) = true := by decide
  rw [ofText?, lines]
  dsimp only
  rw [if_pos opens, none, length_unclosed]

theorem body_unclosed : (ofText (unclosed n)).body = n + 4 := by
  rw [body, ofText, Header.ofText?_unclosed]
  rfl

theorem isBlank_headerText_unclosed : Bytes.isBlank (ofText (unclosed n)).headerText = true := by
  have lines : (ofText (unclosed n)).headerText = List.replicate n Bytes.lf := by
    rw [headerText, ofText, Header.ofText?_unclosed]
    dsimp only [Extent.of]
    rw [Bytes.slice, drop_unclosed (Nat.le_refl 4), Nat.add_sub_cancel]
    exact List.take_of_length_le (List.length_replicate.le)
  have ascii : Bytes.IsAscii (List.replicate n Bytes.lf) :=
    fun b member => isAscii_unclosed b (List.mem_append_right _ member)
  rw [lines, Bytes.isBlank, Bytes.runes_of_isAscii ascii, List.all_map, List.all_eq_true]
  intro b member
  rw [List.eq_of_mem_replicate member]
  decide

end Document

namespace DocumentView

theorem applied_unclosed {v : DocumentView} {n : Nat} (shows : v.Shows (Document.unclosed n)) (long : 2 ^ 32 ≤ n + 4)
    (m : Bytes) :
    Change.applyAll (Document.unclosed n) ((v.edit ⟨0, n + 4⟩ m).changesTo v.uri) =
      m ++ List.replicate (n + 5 - 2 ^ 32) Bytes.lf := by
  have inside : n + 4 ≤ (Document.unclosed n).length := Document.length_unclosed.ge
  obtain ⟨k, floor, applied⟩ := shows.applied_front inside m
  have reached : min (n + 4) (2 ^ 32 - 1) < (Document.unclosed n).length := by
    rw [Document.length_unclosed]
    omega
  have boundary := (Bytes.boundary_ascii (List.getElem?_eq_getElem reached)
    (Document.isAscii_unclosed _ (List.getElem_mem reached))).1
  obtain rfl := Bytes.isFloor_unique floor boundary.isFloor
  have left : n + 4 - min (n + 4) (2 ^ 32 - 1) = n + 5 - 2 ^ 32 := by omega
  rw [applied, Document.drop_unclosed (by omega), left]

/-- Of a header that is one byte longer than a span reaches, the end is left, and it is the new body. -/
theorem long_header_not_replaced :
    let t := Document.unclosed (2 ^ 32)
    let v := ((Server.start Settings.default ⟨[], false⟩).viewOf ⟨.empty, utf8 "/", []⟩ ⟨utf8 "file:///d", t, 1⟩).1
    let m := Discovery.minimalHeader (Discovery.defaultProvider? [])
    let t' := Change.applyAll t ((v.edit ⟨0, (Document.ofText t).body⟩ m).changesTo v.uri)
    v.Shows t ∧ v.headerActions [] ≠ [] ∧ t.drop (Document.ofText t).body = [] ∧
    t'.drop (Document.ofText t').body = List.replicate 5 Bytes.lf := by
  intro t v m t'
  have shows : v.Shows t := Server.shows_viewOf (Server.fresh_start Settings.default ⟨[], false⟩).coherent.cache _ _
  have applied : t' = m ++ List.replicate (2 ^ 32 + 5 - 2 ^ 32) Bytes.lf := by
    rw [← applied_unclosed shows (Nat.le_add_right ..) m, ← Document.body_unclosed]
  have is : Discovery.IsHeader m := Discovery.isHeader_minimalHeader []
  refine ⟨shows, ?_, ?_, ?_⟩
  · rw [headerActions, shows.document, Document.isBlank_headerText_unclosed]
    exact List.cons_ne_nil _ _
  · rw [Document.body_unclosed]
    exact List.drop_of_length_le Document.length_unclosed.le
  · rw [applied]
    exact is.drop_body_append _

end DocumentView

end Colloquy
