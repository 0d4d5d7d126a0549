import Colloquy.Proofs.Document.Paragraph
import Colloquy.Proofs.Document.Relocation
import Mathlib.Data.List.Infix
import Mathlib.Logic.Relation

/-! # The places of a scan

A node says where a construct lies and not what the scan has matched there. Here the scan is followed from place to
place instead: a place has what is left of the stretch, so what is found at it can be looked at again. The nodes of a
document's paragraphs are exactly what is found at the places that the scan comes to.
-/

namespace Colloquy.Document

namespace Inline

/-- A place in a stretch: the byte in front, if the stretch has one there, the offset and what is left. -/
structure Place where
  before : Option UInt8
  pos : Nat
  rest : Bytes

/-- The construct that starts at a place, as the node that is reported for it. -/
inductive Finds : Place → Node → Prop where
  | directive {before : Option UInt8} {pos : Nat} {t : Bytes} {d : DirectiveParts} : directiveAt? before t = some d →
      Finds ⟨before, pos, 0x3A :: t⟩ ⟨.directive, d.name, pos, pos + d.length, 0⟩
  | link {before : Option UInt8} {pos n : Nat} {b : UInt8} {t : Bytes} : startsLink b t = true →
      link? before (b :: t) = some n → Finds ⟨before, pos, b :: t⟩ ⟨.link, [], pos, pos + n, 0⟩
  | autolink {before : Option UInt8} {pos n : Nat} {t : Bytes} : autolink? t = some n →
      Finds ⟨before, pos, 0x3C :: t⟩ ⟨.link, [], pos, pos + n, 0⟩

/-- How the scan goes on from a place: over an escaped byte or a code span, into the contents of a directive, over
what it has found, or over one byte where it has found nothing. -/
inductive Next : Place → Place → Prop where
  | escape {before : Option UInt8} {pos : Nat} {t : Bytes} :
      Next ⟨before, pos, Bracket.backslash :: t⟩ ⟨t.head?, pos + 2, t.drop 1⟩
  | code {before : Option UInt8} {pos n : Nat} {t : Bytes} : codeSpanLength (0x60 :: t) = n →
      Next ⟨before, pos, 0x60 :: t⟩ ⟨lastOf (0x60 :: t) n, pos + n, t.drop (n - 1)⟩
  | inside {before : Option UInt8} {pos : Nat} {t : Bytes} {d : DirectiveParts} : directiveAt? before t = some d →
      Next ⟨before, pos, 0x3A :: t⟩ ⟨none, pos + d.name.length + 2, d.inner⟩
  | behind {before : Option UInt8} {pos n : Nat} {b : UInt8} {t : Bytes} {m : Node} : Finds ⟨before, pos, b :: t⟩ m →
      m.stop = pos + n → Next ⟨before, pos, b :: t⟩ ⟨lastOf (b :: t) n, pos + n, t.drop (n - 1)⟩
  | byte {before : Option UInt8} {pos : Nat} {b : UInt8} {t : Bytes} : b ≠ Bracket.backslash → b ≠ 0x60 →
      (∀ m, ¬ Finds ⟨before, pos, b :: t⟩ m) → Next ⟨before, pos, b :: t⟩ ⟨some b, pos + 1, t⟩

/-- Whether the scan comes from one place to another. -/
def Reaches : Place → Place → Prop := Relation.ReflTransGen Next

/-- The nodes that are found from a place on. -/
def Place.nodes (p : Place) : List Node := scan p.before p.pos p.rest

/-! ## One step -/

section

variable {before : Option UInt8} {pos : Nat} {b : UInt8} {t : Bytes} {p q : Place} {m : Node}

theorem Finds.mem (found : Finds p m) : m ∈ p.nodes := by
  cases found with
  | directive found =>
      rw [Place.nodes, scan_directive found]
      exact List.mem_cons_self
  | link starts found =>
      rw [Place.nodes, scan_bracket starts found]
      exact List.mem_cons_self
  | autolink found =>
      rw [Place.nodes, scan_angle found]
      exact List.mem_cons_self

/-- What is found at a place starts there, takes at least one byte and ends in the stretch. -/
theorem Finds.bounds (found : Finds p m) : m.start = p.pos ∧ m.start < m.stop ∧ m.stop ≤ p.pos + p.rest.length := by
  cases found with
  | @directive _ _ _ d found =>
      have le := length_le_of_directiveAt? found
      exact ⟨rfl, Nat.lt_add_of_pos_right (length_pos d), Nat.add_le_add_left le _⟩
  | link starts found =>
      obtain ⟨some, le⟩ := link?_bounds found
      exact ⟨rfl, Nat.lt_add_of_pos_right some, Nat.add_le_add_left le _⟩
  | autolink found =>
      obtain ⟨some, le⟩ := autolink?_bounds found
      exact ⟨rfl, Nat.lt_add_of_pos_right some, Nat.add_le_add_left le _⟩

/-- Where nothing is found, the scan passes the byte. -/
theorem scan_byte (escape : b ≠ Bracket.backslash) (code : b ≠ 0x60) (nothing : ∀ m, ¬ Finds ⟨before, pos, b :: t⟩ m) :
    scan before pos (b :: t) = scan (some b) (pos + 1) t := by
  by_cases colon : b = 0x3A
  · subst colon
    exact scan_colon (Option.eq_none_iff_forall_ne_some.mpr fun d found => nothing _ (.directive found))
  by_cases angle : b = 0x3C
  · subst angle
    exact scan_angle (Option.eq_none_iff_forall_ne_some.mpr fun n found => nothing _ (.autolink found))
  by_cases starts : startsLink b t = true
  · exact scan_bracket starts (Option.eq_none_iff_forall_ne_some.mpr fun n found => nothing _ (.link starts found))
  · exact scan_inert ⟨escape, code, colon, eq_false_of_ne_true starts, angle⟩

/-- What is found from the next place on is found from this one on. -/
theorem Next.subset (next : Next p q) : q.nodes ⊆ p.nodes := by
  intro m member
  cases next with
  | escape =>
      rw [Place.nodes, scan_escape]
      exact member
  | code length =>
      rw [Place.nodes, scan_code length]
      exact member
  | inside found =>
      rw [Place.nodes, scan_directive found]
      exact List.mem_cons_of_mem _ (List.mem_append_left _ member)
  | byte escape code nothing =>
      rw [Place.nodes, scan_byte escape code nothing]
      exact member
  | behind found stop =>
      cases found with
      | directive found =>
          obtain rfl := Nat.add_left_cancel stop
          rw [Place.nodes, scan_directive found]
          exact List.mem_cons_of_mem _ (List.mem_append_right _ member)
      | link starts found =>
          obtain rfl := Nat.add_left_cancel stop
          rw [Place.nodes, scan_bracket starts found]
          exact List.mem_cons_of_mem _ member
      | autolink found =>
          obtain rfl := Nat.add_left_cancel stop
          rw [Place.nodes, scan_angle found]
          exact List.mem_cons_of_mem _ member

/-- What is left of the stretch stands in the text. -/
def Place.In (text : Bytes) (p : Place) : Prop := p.rest <+: text.drop p.pos

theorem Place.In.drop {text : Bytes} {n : Nat} (inside : Place.In text ⟨before, pos, t⟩) (before' : Option UInt8) :
    Place.In text ⟨before', pos + n, t.drop n⟩ := by
  have shorter := List.IsPrefix.drop inside n
  rwa [List.drop_drop] at shorter

theorem Place.In.behind {text : Bytes} {n : Nat} (inside : Place.In text ⟨before, pos, b :: t⟩) (some : 0 < n)
    (before' : Option UInt8) : Place.In text ⟨before', pos + n, t.drop (n - 1)⟩ := by
  obtain ⟨n, rfl⟩ := Nat.exists_eq_add_of_lt some
  have shorter := inside.drop (n := 0 + n + 1) before'
  rwa [List.drop_succ_cons] at shorter

theorem Place.In.slice {text : Bytes} {p : Place} {n : Nat} (inside : p.In text)
    (le : n ≤ p.rest.length) : text.slice p.pos (p.pos + n) = p.rest.take n := by
  obtain ⟨behind, same⟩ := inside
  rw [Bytes.slice, Nat.add_sub_cancel_left, ← same, List.take_append_of_le_length le]

/-- It still does at the next place. -/
theorem Next.isIn {text : Bytes} (next : Next p q) (inside : p.In text) : q.In text := by
  cases next with
  | escape => exact inside.behind (n := 2) (by decide) _
  | code length => exact inside.behind (length ▸ (codeSpanLength_bounds _).1) _
  | byte => exact inside.behind (n := 1) (by decide) _
  | behind found stop =>
      have bounds := found.bounds
      simp only at bounds
      exact inside.behind (by omega) _
  | @inside _ pos t d found =>
      obtain ⟨-, tail, spelled⟩ := directiveAt?_spelled found
      have contents := inside.drop (n := d.name.length + 2) none
      have same : (0x3A :: t).drop (d.name.length + 2) = d.inner ++ 0x5D :: tail := by simp [spelled.text]
      rw [same, ← Nat.add_assoc] at contents
      exact (List.prefix_append _ _).trans contents

end

/-! ## The whole scan -/

/-- A node is found at some place from here on. -/
def Place.Leads (p : Place) (m : Node) : Prop := ∃ q, Reaches p q ∧ Finds q m

section

variable {p q : Place} {m : Node}

theorem Place.Leads.here (found : Finds p m) : p.Leads m := ⟨p, .refl, found⟩

theorem Place.Leads.step (next : Next p q) (leads : q.Leads m) : p.Leads m := by
  obtain ⟨r, reaches, found⟩ := leads
  exact ⟨r, .head next reaches, found⟩

theorem leads_of_mem {before : Option UInt8} {pos : Nat} {t : Bytes} (member : m ∈ scan before pos t) :
    Place.Leads ⟨before, pos, t⟩ m := by
  revert member
  fun_induction scan before pos t with
  | case1 => exact fun member => absurd member List.not_mem_nil
  | case2 before pos b rest escape ih =>
      obtain rfl : b = Bracket.backslash := by simpa using escape
      exact fun member => .step .escape (ih member)
  | case3 before pos b rest _ backtick n ih =>
      obtain rfl : b = 0x60 := by simpa using backtick
      exact fun member => .step (.code rfl) (ih member)
  | case4 before pos b rest _ _ colon d found ihInner ihBehind =>
      obtain rfl : b = 0x3A := by simpa using colon
      intro member
      obtain rfl | member := List.mem_cons.mp member
      · exact .here (.directive found)
      obtain member | member := List.mem_append.mp member
      · exact .step (.inside found) (ihInner member)
      · exact .step (.behind (.directive found) rfl) (ihBehind member)
  | case6 before pos b rest _ _ _ starts n found ih =>
      intro member
      obtain rfl | member := List.mem_cons.mp member
      · exact .here (.link starts found)
      · exact .step (.behind (.link starts found) rfl) (ih member)
  | case8 before pos b rest _ _ _ _ angle n found ih =>
      obtain rfl : b = 0x3C := by simpa using angle
      intro member
      obtain rfl | member := List.mem_cons.mp member
      · exact .here (.autolink found)
      · exact .step (.behind (.autolink found) rfl) (ih member)
  | case5 before pos b rest escape backtick colon none ih =>
      obtain rfl : b = 0x3A := by simpa using colon
      refine fun member => .step (.byte (by decide) (by decide) fun m found => ?_) (ih member)
      cases found with
      | directive found => rw [none] at found; cases found
      | link starts _ => cases starts
  | case7 before pos b rest escape backtick _ starts none ih =>
      refine fun member => .step (.byte (by simpa using escape) (by simpa using backtick) fun m found => ?_) (ih member)
      cases found with
      | directive _ => cases starts
      | link _ found => rw [none] at found; cases found
      | autolink _ => cases starts
  | case9 before pos b rest escape backtick _ _ angle none ih =>
      obtain rfl : b = 0x3C := by simpa using angle
      refine fun member => .step (.byte (by decide) (by decide) fun m found => ?_) (ih member)
      cases found with
      | link starts _ => cases starts
      | autolink found => rw [none] at found; cases found
  | case10 before pos b rest escape backtick colon link angle ih =>
      refine fun member => .step (.byte (by simpa using escape) (by simpa using backtick) fun m found => ?_) (ih member)
      cases found with
      | directive _ => simp at colon
      | link starts _ => exact link starts
      | autolink _ => simp at angle

/-- The nodes of a stretch are what is found at the places that its scan comes to. -/
theorem mem_nodes_iff_leads : m ∈ p.nodes ↔ p.Leads m := by
  refine ⟨leads_of_mem, ?_⟩
  rintro ⟨q, reaches, found⟩
  induction reaches using Relation.ReflTransGen.head_induction_on with
  | refl => exact found.mem
  | head next _ ih => exact next.subset ih

end

end Inline

/-! ## Paragraphs -/

namespace Block

/-- The scan of some lines ends a paragraph: it is open behind some of them, and the line behind these, if there is
one, does not continue it. -/
def EndsParagraph (text : Bytes) (st : State) (ls : List Line) (start stop : Nat) : Prop :=
  ∃ read left, ls = read ++ left ∧ (after text st read).mode = .paragraph start stop ∧
    ∀ l ∈ left.head?, ∀ longer, (step text (after text st read) l).1.mode ≠ .paragraph start longer

section

variable {text : Bytes} {st : State} {l : Line} {ls : List Line} {n : Node} {start stop : Nat}

/-- A line completes what an open paragraph holds exactly if it does not continue it. -/
theorem mem_step_paragraph (opened : st.mode = .paragraph start stop) (inline : n.kind.IsInline) :
    n ∈ (step text st l).2 ↔
      n ∈ flush text st.mode ∧ ∀ longer, (step text st l).1.mode ≠ .paragraph start longer := by
  have same : step text st l = openLine text st l := by simp only [step, opened]
  refine ⟨fun member => ⟨inline_step member inline, ?_⟩, ?_⟩
  · revert member
    rw [same]
    fun_cases openLine text st l with
    | case1 | case3 | case4 | case5 =>
        intro _ longer same
        cases same
    | case2 | case6 | case7 | case8 => exact fun member => absurd member List.not_mem_nil
  · rintro ⟨member, ended⟩
    rw [same] at ended ⊢
    revert ended
    fun_cases openLine text st l with
    | case1 | case3 => exact fun _ => member
    | case4 => exact fun _ => List.mem_append_left _ member
    | case7 mode _ _ _ _ _ _ _ start' stop' known =>
        intro ended
        obtain ⟨rfl, -⟩ : start = start' ∧ stop = stop' := by simpa using opened.symm.trans known
        exact absurd rfl (ended l.stop)
    | case8 mode _ _ _ _ _ _ _ other => exact absurd opened (other start stop)
    | case2 mode inParagraph _ indented => simp [inParagraph, mode, opened] at indented
    | case5 mode spaces inParagraph _ _ _ _ tag known | case6 mode spaces inParagraph _ _ _ _ tag known =>
        simp [inParagraph, mode, opened] at known

/-- The inline constructs of a run are those of the paragraphs that it ends. -/
theorem mem_run_iff (inline : n.kind.IsInline) : n ∈ run text st ls ↔
    ∃ start stop, EndsParagraph text st ls start stop ∧ n ∈ Inline.nodes start (text.slice start stop) := by
  have opened : ∀ {st : State}, n ∈ flush text st.mode →
      ∃ start stop, st.mode = .paragraph start stop ∧ n ∈ Inline.nodes start (text.slice start stop) := by
    intro st member
    cases known : st.mode with
    | paragraph start stop =>
        rw [known] at member
        exact ⟨start, stop, rfl, member⟩
    | idle | indented | fenced | html =>
        rw [known] at member
        cases member
  constructor
  · induction ls generalizing st with
    | nil =>
        intro member
        obtain ⟨start, stop, known, member⟩ := opened (inline_finish member inline)
        exact ⟨start, stop, ⟨[], [], rfl, known, nofun⟩, member⟩
    | cons l ls ih =>
        intro member
        obtain here | behind := mem_run_cons.mp member
        · obtain ⟨start, stop, known, member⟩ := opened (inline_step here inline)
          have ended := ((mem_step_paragraph known inline).mp here).2
          refine ⟨start, stop, ⟨[], l :: ls, rfl, known, ?_⟩, member⟩
          rintro _ ⟨⟩
          exact ended
        · obtain ⟨start, stop, ⟨read, left, rfl, known, ended⟩, held⟩ := ih behind
          exact ⟨start, stop, ⟨l :: read, left, rfl, known, ended⟩, held⟩
  · rintro ⟨start, stop, ⟨read, left, rfl, known, ended⟩, member⟩
    have member : n ∈ flush text (after text st read).mode := known ▸ member
    rw [run_append, List.mem_append]
    cases left with
    | nil =>
        refine .inr (List.mem_append_left _ ?_)
        rw [known] at member ⊢
        exact member
    | cons l left =>
        refine .inr (mem_run_cons.mpr (.inl ?_))
        exact (mem_step_paragraph known inline).mpr ⟨member, ended l rfl⟩

end

end Block

/-! ## Documents -/

/-- The scan of a document comes to a place: it is in a paragraph of the body, or in the contents of a directive
there. -/
def Visits (text : Bytes) (p : Inline.Place) : Prop :=
  let body := bodyOf (Header.ofText? text)
  ∃ start stop, Block.EndsParagraph text .start (Line.ofText body (text.drop body)) start stop ∧
    Inline.Reaches ⟨none, start, text.slice start stop⟩ p

theorem Visits.isIn {text : Bytes} {p : Inline.Place} (visits : Visits text p) : p.In text := by
  obtain ⟨start, stop, -, reaches⟩ := visits
  have first : Inline.Place.In text ⟨none, start, text.slice start stop⟩ := List.take_prefix _ _
  induction reaches with
  | refl => exact first
  | tail _ next ih => exact next.isIn ih

/-- The inline constructs of a document are what its scan finds at the places that it comes to. -/
theorem mem_nodes_iff {text : Bytes} {n : Node} (inline : n.kind.IsInline) :
    n ∈ (ofText text).nodes ↔ ∃ p, Visits text p ∧ Inline.Finds p n := by
  change n ∈ bodyNodes text (bodyOf (Header.ofText? text)) ↔ _
  rw [mem_bodyNodes, Block.mem_run_iff inline]
  constructor
  · rintro ⟨start, stop, ended, member⟩
    obtain ⟨p, reaches, found⟩ := Inline.leads_of_mem member
    exact ⟨p, ⟨start, stop, ended, reaches⟩, found⟩
  · rintro ⟨p, ⟨start, stop, ended, reaches⟩, found⟩
    exact ⟨start, stop, ended, Inline.mem_nodes_iff_leads.mpr ⟨p, reaches, found⟩⟩

end Colloquy.Document
