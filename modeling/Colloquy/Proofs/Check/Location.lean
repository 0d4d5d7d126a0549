import Colloquy.Check.Basic
import Colloquy.Proofs.Check.Rule
import Colloquy.Proofs.Config.Location
import Colloquy.Proofs.Diagnostic.Bag
import Colloquy.Proofs.Document.Block
import Colloquy.Proofs.Outline.Inner

/-! # Where findings point

Every span of a finding lies in the document. The rules take spans from the text and its outline, and from the
layer of the header; the latter lie in the header's content, whatever tree of nodes the content decodes to.
-/

namespace Colloquy

namespace Diagnostic

variable {lo hi : Nat} {d : Diagnostic}

/-- All spans of a diagnostic: its own, those of its notes and those of the edits of its fixes. -/
def spans (d : Diagnostic) : List Span :=
  d.span :: (d.notes.map Note.span ++ d.fixes.flatMap fun f => f.edits.map Edit.span)

def Inside (lo hi : Nat) (d : Diagnostic) : Prop := ∀ span ∈ d.spans, span.Inside lo hi

theorem inside_of {severity : Severity} {code : Code} {span : Span} {message : Bytes}
    (inside : span.Inside lo hi) : (of severity code span message).Inside lo hi := by
  intro own member
  obtain rfl := List.mem_singleton.mp member
  exact inside

theorem Inside.withFix {edits : List Edit} (inside : d.Inside lo hi) (title : Bytes)
    (edited : ∀ e ∈ edits, e.span.Inside lo hi) : (d.withFix title edits).Inside lo hi := by
  intro own member
  simp only [spans, Diagnostic.withFix, List.flatMap_append, List.flatMap_cons, List.flatMap_nil,
    List.append_nil, List.mem_cons, List.mem_append] at member
  obtain first | note | fix | last := member
  · exact inside own (by simp [spans, first])
  · exact inside own (by simp only [spans, List.mem_cons, List.mem_append, note, true_or, or_true])
  · exact inside own (by simp only [spans, List.mem_cons, List.mem_append, fix, or_true])
  · obtain ⟨e, member, rfl⟩ := List.mem_map.mp last
    exact edited e member

/-- The codes of findings about the text. All other findings are about entries of the header. -/
def textCodes : List Code := [.headerMissing, .unknownInterlocutor, .relativeFileUrl]

/-- The diagnostic points into a text of `length` bytes, and into `content` if it is about the header. -/
structure Located (length : Nat) (content : Extent) (d : Diagnostic) : Prop where
  inText : d.Inside 0 length
  inHeader : d.code ∉ textCodes → d.Inside content.start content.stop

theorem Inside.located {length : Nat} {content : Extent} (inside : d.Inside content.start content.stop)
    (le : content.stop ≤ length) : d.Located length content :=
  ⟨fun span member => (inside span member).widen (Nat.zero_le _) le, fun _ => inside⟩

theorem located_of_code {length : Nat} {content : Extent} {code : Code} (text : code ∈ textCodes)
    (found : d.code = code ∧ d.Inside 0 length) : d.Located length content :=
  ⟨found.2, fun other => absurd (found.1 ▸ text) other⟩

end Diagnostic

namespace Document

/-- Where the configuration of the header lies. -/
def headerExtent (d : Document) : Extent := (d.header.map Header.content).getD ⟨0, 0⟩

theorem headerExtent_bounds (text : Bytes) :
    (ofText text).headerStart = (ofText text).headerExtent.start ∧
    (ofText text).headerStart + (ofText text).headerText.length = (ofText text).headerExtent.stop ∧
    (ofText text).headerExtent.stop ≤ text.length := by
  unfold ofText headerStart headerText headerExtent
  cases found : Header.ofText? text with
  | none => simp
  | some h =>
      obtain ⟨order, inside⟩ := Header.content_bounds found
      have length := Bytes.length_slice h.content.start inside
      simp only [Extent.of, Option.map_some, Option.getD_some, length]
      exact ⟨trivial, by omega, inside⟩

end Document

namespace Rule

variable {s : Subject} {lo hi : Nat} {d : Diagnostic}

/-! ## Findings about the header -/

theorem inside_headerFault (within : s.header.Within lo hi) (member : d ∈ headerFault s) : d.Inside lo hi := by
  obtain ⟨f, span, broken, rfl⟩ := mem_headerFault.mp member
  exact Diagnostic.inside_of (within.fault _ broken)

theorem IsRepeated.inside {α : Type} {kind : Code} {place : α → Span} {entries : List α}
    (found : IsRepeated kind place entries d) (within : ∀ x ∈ entries, (place x).Inside lo hi) :
    d.Inside lo hi := by
  intro span member
  rw [Diagnostic.spans, found.fixes, List.flatMap_nil, List.append_nil, List.mem_cons, List.mem_map] at member
  obtain rfl | ⟨note, noted, rfl⟩ := member
  · obtain ⟨x, listed, same⟩ := found.span
    exact same ▸ within x listed
  · obtain ⟨x, listed, same⟩ := found.notes note noted
    exact same ▸ within x listed

theorem inside_duplicates (within : s.header.Within lo hi) (member : d ∈ duplicates s) : d.Inside lo hi := by
  obtain found | found := isRepeated_of_mem_duplicates member
  · exact found.inside fun it listed => (within.interlocutors it listed).name
  · exact found.inside within.macros

theorem inside_prompts (within : s.header.Within lo hi) (member : d ∈ prompts s) : d.Inside lo hi := by
  obtain ⟨it, listed, -, -, rfl⟩ := mem_prompts.mp member
  exact Diagnostic.inside_of (within.interlocutors it listed).name

theorem within_tools (within : s.header.Within lo hi) : ∀ t ∈ s.header.tools, t.Within lo hi := by
  intro t member
  obtain member | member := List.mem_append.mp member
  · obtain ⟨it, listed, given⟩ := List.mem_flatMap.mp member
    exact (within.interlocutors it listed).tools t given
  · obtain ⟨k, listed, given⟩ := List.mem_flatMap.mp member
    exact (within.kits k listed).tools t given

theorem inside_toolTargets (within : s.header.Within lo hi) (member : d ∈ toolTargets s) : d.Inside lo hi := by
  obtain ⟨t, listed, ⟨-, -, rfl⟩ | ⟨-, -, rfl⟩⟩ := mem_toolTargets.mp member
  · exact Diagnostic.inside_of (within_tools within t listed).span
  · exact Diagnostic.inside_of (within_tools within t listed).span

theorem inside_hookList {h : Hooks} (within : h.Within lo hi) (member : d ∈ hookList h) : d.Inside lo hi := by
  obtain ⟨-, i, listed, found⟩ | ⟨-, rfl⟩ := mem_hookList.mp member
  · obtain ⟨-, rfl⟩ | ⟨e, given, -, rfl⟩ := mem_hook.mp found
    · exact Diagnostic.inside_of (within.items i listed).span
    · exact Diagnostic.inside_of ((within.items i listed).events e given)
  · exact Diagnostic.inside_of within.span

theorem inside_hooks (within : s.header.Within lo hi) (member : d ∈ hooks s) : d.Inside lo hi := by
  obtain ⟨h, own | ⟨it, listed, given⟩, found⟩ := mem_hooks.mp member
  · exact inside_hookList (within.hooks h own) found
  · exact inside_hookList ((within.interlocutors it listed).hooks h given) found

theorem inside_models {registry : Registry} (within : s.header.Within lo hi) (member : d ∈ models registry s) :
    d.Inside lo hi := by
  obtain ⟨it, listed, ⟨sets, -⟩, -, rfl⟩ := mem_models.mp member
  exact Diagnostic.inside_of ((within.interlocutors it listed).model sets)

/-! ## Findings about the text -/

section Text

variable {outer : List Layer} {docPath text : Bytes} {header : Layer}

theorem bounds_of_mem_nodesOf {kind : Document.Kind} {n : Document.Node}
    (member : n ∈ (Document.ofText text).nodesOf kind) : n.start ≤ n.stop ∧ n.stop ≤ text.length := by
  have nested := Document.nested_bodyNodes (Document.body_le text)
  have bounds := nested.bounds n (List.mem_of_mem_filter member)
  omega

variable (short : text.length < 2 ^ 32)
include short

theorem inside_headerPresence (member : d ∈ headerPresence { Subject.ofLayers outer docPath text with header }) :
    d.code = .headerMissing ∧ d.Inside 0 text.length := by
  obtain ⟨-, rfl⟩ := mem_headerPresence.mp member
  exact ⟨rfl, Diagnostic.inside_of (Span.inside_restOfLine short (Nat.zero_le _))⟩

theorem inside_references (member : d ∈ references { Subject.ofLayers outer docPath text with header }) :
    d.code = .unknownInterlocutor ∧ d.Inside 0 text.length := by
  obtain ⟨r, listed, -, -, rfl⟩ := mem_references.mp member
  obtain ⟨n, node, rfl⟩ := List.mem_map.mp listed
  obtain ⟨order, inside⟩ := bounds_of_mem_nodesOf node
  obtain ⟨start, stop⟩ := Directive.inner_le order inside
  exact ⟨rfl, Diagnostic.inside_of (Span.inside_of short ⟨Nat.zero_le _, Nat.le_trans start inside⟩
    ⟨Nat.zero_le _, Nat.le_trans stop inside⟩)⟩

theorem inside_links (member : d ∈ links { Subject.ofLayers outer docPath text with header }) :
    d.code = .relativeFileUrl ∧ d.Inside 0 text.length := by
  obtain ⟨l, listed, -, rfl⟩ := mem_links.mp member
  obtain ⟨n, node, rfl⟩ := List.mem_map.mp listed
  obtain ⟨order, inside⟩ := bounds_of_mem_nodesOf node
  obtain ⟨start, stop⟩ := Link.url_le order inside
  have url := Span.inside_of short ⟨Nat.zero_le _, Nat.le_trans start inside⟩
    ⟨Nat.zero_le _, Nat.le_trans stop inside⟩
  split
  · refine ⟨rfl, (Diagnostic.inside_of url).withFix _ fun e member => ?_⟩
    obtain rfl := List.mem_singleton.mp member
    exact url
  · exact ⟨rfl, Diagnostic.inside_of url⟩

theorem located_structural {content : Extent} (le : content.stop ≤ text.length)
    (within : header.Within content.start content.stop) :
    ∀ d ∈ structural { Subject.ofLayers outer docPath text with header }, d.Located text.length content := by
  intro d member
  simp only [structural, List.mem_append] at member
  obtain ((((((found | found) | found) | found) | found) | found) | found) | found := member
  · exact Diagnostic.located_of_code (by decide) (inside_headerPresence short found)
  · exact (inside_headerFault within found).located le
  · exact (inside_duplicates within found).located le
  · exact (inside_prompts within found).located le
  · exact Diagnostic.located_of_code (by decide) (inside_references short found)
  · exact (inside_toolTargets within found).located le
  · exact (inside_hooks within found).located le
  · exact Diagnostic.located_of_code (by decide) (inside_links short found)

end Text

end Rule

namespace Check

/-- All findings on a document of fewer than 2^32 bytes point into it, and those about the header into the
header's content. This is so whatever tree the content decodes to, not only for the tree that it is parsed to. -/
theorem findings_inside_document (text : Bytes) (short : text.length < 2 ^ 32) (outer : List Layer)
    (docPath : Bytes) :
    let s := Subject.ofLayers outer docPath text
    let Decodes := Layer.Decoded ⟨.header, docPath⟩ s.document.headerText s.document.headerStart
    Decodes s.header ∧
    ∀ header, Decodes header → ∀ limit registry,
      ∀ d ∈ document limit { s with header } ++ models limit registry { s with header },
        d.Located text.length s.document.headerExtent := by
  intro s Decodes
  refine ⟨Layer.decoded_ofText _ _ _, ?_⟩
  intro header decoded limit registry d member
  obtain ⟨start, stop, le⟩ := Document.headerExtent_bounds text
  have within := decoded.within (Nat.lt_of_le_of_lt (stop ▸ le) short)
  have within : header.Within s.document.headerExtent.start s.document.headerExtent.stop := start ▸ stop ▸ within
  obtain member | member := List.mem_append.mp member
  · exact Rule.located_structural short le within d (Bag.mem_of_mem_finish member)
  · exact (Rule.inside_models within (Bag.mem_of_mem_finish member)).located le

/-- Nodes that are said to lie far behind the header make a finding at its end. -/
theorem findings_inside_document_stray_node :
    let text := utf8 "---\nhooks: 1\n---\n:ask[Bo]"
    let s := Subject.ofLayers [] [] text
    let node := fun value => Yaml.Node.scalar ⟨90, 7⟩ (utf8 value) .plain false
    let header := Layer.ofRoot ⟨.header, []⟩ s.document.headerText s.document.headerStart
      (some (.mapping ⟨1, 1⟩ [(node "hooks", node "1")]))
    (∃ d ∈ document 0 { s with header }, d.code = .hooksNotList ∧ d.span = ⟨13, 13⟩) ∧
    s.document.headerExtent = ⟨4, 13⟩ ∧
    ∀ d ∈ document 0 { s with header }, d.Located text.length ⟨4, 13⟩ := by
  intro text s node header
  have extent : s.document.headerExtent = ⟨4, 13⟩ := by decide
  have located := (findings_inside_document text (by decide) [] []).2 header (.tree _) 0 (.empty [])
  have raised : Rule.hooks { s with header } =
      [.error .hooksNotList ⟨13, 13⟩ (utf8 "hooks must be a list")] := by decide +kernel
  have listed : .error .hooksNotList ⟨13, 13⟩ (utf8 "hooks must be a list") ∈
      Rule.structural { s with header } := by
    simp only [Rule.structural, List.mem_append, raised, List.mem_singleton, true_or, or_true]
  obtain ⟨d, found, same⟩ := Bag.exists_mem_finish (Int.le_refl 0) listed
  obtain ⟨code, span, -⟩ := Diagnostic.key_inj same
  exact ⟨⟨d, found, code, span⟩, extent, fun d member => extent ▸ located d (List.mem_append_left _ member)⟩

end Check

end Colloquy
