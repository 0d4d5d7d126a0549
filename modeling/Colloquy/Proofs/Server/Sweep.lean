import Colloquy.Proofs.Server.Handling

/-! # Checks

A check goes through the open documents in halves, and a schedule is carried out by all halves at one go. `Advanced`
says once what the next half can do. A property that every half keeps is kept when a schedule is carried out.
-/

namespace Colloquy

namespace Server

/-! ## What is found in a document -/

theorem aside_ensureModels (s : Server) (providers : List Bytes) :
    Aside [] s (s.ensureModels providers) ∧ (s.ensureModels providers).schedule = s.schedule := by
  unfold ensureModels
  induction providers generalizing s with
  | nil => exact ⟨.refl s, rfl⟩
  | cons provider providers ih =>
      rw [List.foldl_cons]
      split
      · exact ih s
      · dsimp only
        split
        all_goals
          obtain ⟨rest, same⟩ := ih _
          exact ⟨⟨⟨rest.texts, rest.versions⟩, rest.sent, rest.published, rest.schedule, rest.cache⟩, same⟩

theorem aside_diagnose (s : Server) (host : Host) (d : OpenDocument) :
    Aside [] s (s.diagnose host d).2 ∧ (s.diagnose host d).2.schedule = s.schedule := by
  have viewed := Aside.viewOf s host d
  unfold diagnose
  dsimp only
  split
  · exact ⟨viewed, rfl⟩
  · dsimp only
    split
    · obtain ⟨ensured, same⟩ := aside_ensureModels (s.viewOf host d).2 _
      exact ⟨viewed.trans ensured, same⟩
    · exact ⟨viewed, rfl⟩

/-- Publish what is found in a document. -/
def checkDocument (s : Server) (host : Host) (d : OpenDocument) : Server :=
  (s.diagnose host d).2.announce d (s.diagnose host d).1

theorem sameDocuments_checkDocument (s : Server) (host : Host) (d : OpenDocument) :
    SameDocuments s (s.checkDocument host d) :=
  ⟨(aside_diagnose s host d).1.texts, (aside_diagnose s host d).1.versions⟩

/-- A document that has not changed since it was read is open, for its version is known as well as its text. -/
theorem mem_documents_of_isUnchanged {s : Server} (keyed : s.Keyed) {d : OpenDocument}
    (unchanged : s.isUnchanged d = true) : d ∈ s.documents := by
  rw [isUnchanged, Bool.and_eq_true, Option.any_eq_true, beq_iff_eq] at unchanged
  obtain ⟨⟨v, version, same⟩, text⟩ := unchanged
  obtain rfl := beq_iff_eq.mp same
  have held : (s.texts.get? d.uri).isSome = true := by
    rw [← text?, ← keyed, version?, version]
    rfl
  obtain ⟨t, known⟩ := Option.isSome_iff_exists.mp held
  rw [known, Option.getD_some] at text
  rw [mem_documents_iff, text?, known, versionOf, version, text]
  exact ⟨rfl, rfl⟩

theorem isUnchanged_of_mem_documents {s : Server} (keyed : s.Keyed) {d : OpenDocument} (member : d ∈ s.documents) :
    s.isUnchanged d = true := by
  obtain ⟨text, same⟩ := mem_documents_iff.mp member
  have known : (s.version? d.uri).isSome = true := by rw [keyed, text]; rfl
  obtain ⟨v, version⟩ := Option.isSome_iff_exists.mp known
  rw [version?] at version
  rw [text?] at text
  rw [versionOf, version, Option.getD_some] at same
  simp [isUnchanged, version, text, same]

end Server

/-! ## Halves -/

namespace Sweep

open Server

/-- Why a sweep ends. -/
def Ends (s : Server) (w : Sweep) : Prop :=
  w.left = [] ∨ w.schedule ≠ s.schedule ∨ ∃ d rest, w.left = d :: rest ∧ s.isUnchanged d = false

/-- What the next half of a sweep can do. -/
inductive Advanced (host : Host) (s : Server) (w : Sweep) : Server × Sweep → Prop where
  | rested : w.ended = true → Advanced host s w (s, w)
  | stopped (t : Trace.Tracer) : w.Ends s → Advanced host s w ({ s with tracer := t }, { w with ended := true })
  | computed {d : OpenDocument} {rest : List OpenDocument} : w.ended = false → w.left = d :: rest →
      Advanced host s w ((s.diagnose host d).2, { w with found := some (s.diagnose host d).1 })
  | announced {d : OpenDocument} {rest : List OpenDocument} {findings : List Wire.Finding} : w.ended = false →
      w.left = d :: rest → w.found = some findings → s.isUnchanged d = true →
      Advanced host s w (s.announce d findings, { w with left := rest, found := none })

theorem advanced_advance (host : Host) (s : Server) (w : Sweep) : Advanced host s w (w.advance host s) := by
  unfold advance
  split
  · rename_i ended
    exact .rested ended
  · rename_i goesOn
    have goesOn : w.ended = false := by simpa using goesOn
    split
    · rename_i left
      exact .stopped _ (.inl left)
    · rename_i left _
      split
      · rename_i old
        exact .stopped _ (.inr (.inl (by simpa using old)))
      · exact .computed goesOn left
    · rename_i d rest findings left found
      split
      · rename_i dropped
        simp only [Bool.or_eq_true, bne_iff_ne, Bool.not_eq_true'] at dropped
        exact .stopped _ (.inr (dropped.imp_right fun changed => ⟨d, rest, left, changed⟩))
      · rename_i kept
        exact .announced goesOn left found (by simp_all)

/-- What both halves do for an open document when nothing comes between them. -/
theorem advance_advance {s : Server} (keyed : s.Keyed) (host : Host) {w : Sweep} {d : OpenDocument}
    {rest : List OpenDocument} (goesOn : w.ended = false) (latest : w.schedule = s.schedule) (left : w.left = d :: rest)
    (unfound : w.found = none) (member : d ∈ s.documents) :
    (w.advance host s).2.advance host (w.advance host s).1 = (s.checkDocument host d, { w with left := rest }) := by
  obtain ⟨aside, same⟩ := aside_diagnose s host d
  have first : w.advance host s = ((s.diagnose host d).2, { w with found := some (s.diagnose host d).1 }) := by
    simp [advance, goesOn, left, unfound, latest]
  have unchanged : (s.diagnose host d).2.isUnchanged d = true :=
    isUnchanged_of_mem_documents (keyed.same aside.toSameDocuments) (by rwa [aside.documents])
  rw [first]
  simp [advance, goesOn, left, latest, same, unchanged, unfound, checkDocument]

/-! ## What all halves keep -/

/-- A property of servers that the check of some documents keeps, half by half. -/
structure Keeps (P : Server → Prop) (host : Host) (ds : List OpenDocument) : Prop where
  traced : ∀ s t, P s → P { s with tracer := t }
  diagnosed : ∀ d s, P s → P (s.diagnose host d).2
  announced : ∀ d ∈ ds, ∀ s findings, P s → P (s.announce d findings)

variable {P : Server → Prop} {host : Host}

theorem Keeps.mono {ds es : List OpenDocument} (keeps : Keeps P host ds) (fewer : ∀ d ∈ es, d ∈ ds) : Keeps P host es :=
  ⟨keeps.traced, keeps.diagnosed, fun d member => keeps.announced d (fewer d member)⟩

theorem Advanced.keeps {s : Server} {w : Sweep} {p : Server × Sweep} (advanced : Advanced host s w p)
    (keeps : Keeps P host w.left) (before : P s) : Keeps P host p.2.left ∧ P p.1 := by
  cases advanced with
  | rested => exact ⟨keeps, before⟩
  | stopped t => exact ⟨keeps, keeps.traced s t before⟩
  | computed => exact ⟨keeps, keeps.diagnosed _ s before⟩
  | announced goesOn left =>
      rw [left] at keeps
      exact ⟨keeps.mono fun d => List.mem_cons_of_mem _, keeps.announced _ List.mem_cons_self s _ before⟩

theorem through_keeps {ds : List OpenDocument} {p : Server × Sweep} (keeps : Keeps P host p.2.left) (before : P p.1) :
    P (through host ds p).1 := by
  induction ds generalizing p with
  | nil => exact ((advanced_advance host p.1 p.2).keeps keeps before).2
  | cons d ds ih =>
      obtain ⟨keeps, before⟩ := (advanced_advance host p.1 p.2).keeps keeps before
      obtain ⟨keeps, before⟩ := (advanced_advance host _ _).keeps keeps before
      exact ih keeps before

end Sweep

/-! ## Schedules -/

namespace Server

theorem runSchedule_dropped {s : Server} {n : Nat} (dropped : n = 0 ∨ n ≠ s.schedule) (host : Host) :
    s.runSchedule host n = s :=
  if_pos (by simpa using dropped)

theorem runSchedule_latest {s : Server} (scheduled : s.schedule ≠ 0) (host : Host) :
    s.runSchedule host s.schedule = (Sweep.through host s.sortedDocuments (Sweep.start s)).1 :=
  if_neg (by simpa using scheduled)

theorem runSchedule_keeps {P : Server → Prop} {host : Host} {s : Server} (keeps : Sweep.Keeps P host s.documents)
    (n : Nat) (before : P s) : P (s.runSchedule host n) := by
  by_cases dropped : n = 0 ∨ n ≠ s.schedule
  · rwa [runSchedule_dropped dropped]
  · obtain ⟨scheduled, rfl⟩ : n ≠ 0 ∧ n = s.schedule := by simpa [not_or] using dropped
    rw [runSchedule_latest scheduled]
    exact Sweep.through_keeps (keeps.mono fun d => List.mem_mergeSort.mp) (keeps.traced s _ before)

theorem sameDocuments_runSchedule (s : Server) (host : Host) (n : Nat) : SameDocuments s (s.runSchedule host n) :=
  runSchedule_keeps (P := SameDocuments s)
    { traced := fun _ _ same => ⟨same.texts, same.versions⟩
      diagnosed := fun d t same => same.trans (aside_diagnose t host d).1.toSameDocuments
      announced := fun _ _ _ _ same => ⟨same.texts, same.versions⟩ } n (.refl s)

theorem schedule_runSchedule (s : Server) (host : Host) (n : Nat) : (s.runSchedule host n).schedule = s.schedule :=
  runSchedule_keeps (P := fun t => t.schedule = s.schedule)
    { traced := fun _ _ => id
      diagnosed := fun d t same => (aside_diagnose t host d).2.trans same
      announced := fun _ _ _ _ => id } n rfl

end Server

end Colloquy
