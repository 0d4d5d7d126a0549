import Colloquy.Command.Check
import Colloquy.Proofs.Check.Verdict

/-! # Why a check fails

Checking a document adds a report to those before it, and `checkDocument_of_read` says which one. Whether it
holds an error is decided by the document alone: a limit keeps the first finding, models make warnings only, and
leaving warnings out leaves errors in. So the verdict on all documents is computed by `judge`, which sees none of
the flags that choose what is shown.
-/

namespace Colloquy

/-- The arguments are the same but for the values of some of the known flags. -/
structure Arguments.AgreeApartFrom (varied known : List Flag) (a b : Arguments) : Prop where
  rest : a.rest = b.rest
  value : ∀ f ∈ known, f ∉ varied → a.value f = b.value f

theorem Arguments.AgreeApartFrom.text {varied known : List Flag} {a b : Arguments} {f : Flag}
    (agree : a.AgreeApartFrom varied known b) (isKnown : f ∈ known) (isFixed : f ∉ varied) : a.text f = b.text f := by
  rw [Arguments.text, agree.value f isKnown isFixed]
  rfl

namespace Command.Check

variable {i : Invocation} {resolver : Resolver} {o : Options} {a b : Arguments} {w w' : Work} {path text : Bytes}

/-- The flags that choose what is shown of the findings, and in which form. -/
def presentationFlags : List Flag := [limitFlag, noWarningsFlag, formatFlag, notesFlag, fixesFlag]

/-- The arguments ask for a format that there is. -/
def HasFormat (a : Arguments) : Prop :=
  Bytes.lower (a.text formatFlag) = utf8 "pretty" ∨ Bytes.lower (a.text formatFlag) = utf8 "json"

instance : Decidable (HasFormat a) := inferInstanceAs (Decidable (_ ∨ _))

/-- The resolver that reads the configuration of documents for a check. -/
def resolverOf (i : Invocation) : Resolver := ⟨Discovery.systemConfig i.host.env [], false⟩

def subjectOf (i : Invocation) (resolver : Resolver) (path text : Bytes) : Subject :=
  Subject.resolve resolver i.host (Path.dir (i.host.abs path)) (i.host.abs path) text

/-- The findings that the options leave in a report. -/
def Options.shown (o : Options) (found : List Diagnostic) : List Diagnostic :=
  if o.noWarnings then found.filter fun d => d.severity == .error else found

def reportOf (i : Invocation) (resolver : Resolver) (o : Options) (registry : Option Registry) (path text : Bytes) :
    Report :=
  let s := subjectOf i resolver path text
  ⟨path, text, o.shown (Check.document o.limit.toInt s ++ Check.modelFindings o.limit.toInt registry s)⟩

/-! ## One document -/

/-- Fetching models leaves the reports as they are, and models are checked afterwards as they were before. -/
theorem fetchModels_frame (i : Invocation) (path : Bytes) (w : Work) (provider : Bytes) :
    (fetchModels i path w provider).reports = w.reports ∧
      (fetchModels i path w provider).registry.isSome = w.registry.isSome := by
  unfold fetchModels
  split
  · exact ⟨rfl, rfl⟩
  · next registry held =>
      rw [held]
      dsimp only
      split <;> exact ⟨rfl, rfl⟩

theorem foldl_fetchModels_frame (i : Invocation) (path : Bytes) (w : Work) (providers : List Bytes) :
    (providers.foldl (fetchModels i path) w).reports = w.reports ∧
      (providers.foldl (fetchModels i path) w).registry.isSome = w.registry.isSome := by
  refine List.foldlRecOn (motive := fun w' : Work => w'.reports = w.reports ∧
    w'.registry.isSome = w.registry.isSome) providers _ ⟨rfl, rfl⟩ ?_
  intro w' ⟨reports, registry⟩ provider _
  have frame := fetchModels_frame i path w' provider
  exact ⟨frame.1.trans reports, frame.2.trans registry⟩

/-- A readable document is checked, and its report joins those before it. -/
theorem checkDocument_of_read (resolver : Resolver) (o : Options) (w : Work)
    (readable : i.host.read path = .ok text) :
    ∃ w', checkDocument i resolver o w path = .ok w' ∧ w'.registry.isSome = w.registry.isSome ∧
      w'.reports = w.reports ++ [reportOf i resolver o w'.registry path text] := by
  simp only [checkDocument, readable, Except.mapError, bind, Except.bind]
  split
  · next held =>
      refine ⟨_, rfl, rfl, ?_⟩
      simp only [reportOf, Check.modelFindings, held, List.append_nil]
      rfl
  · next registry held =>
      -- where the lists are fetched the work is a long term, which only its frame has to be known of
      have frame := fun begun : Work =>
        foldl_fetchModels_frame i path begun (Check.modelProviders (subjectOf i resolver path text))
      refine ⟨_, rfl, (frame _).2, congrArg₂ (· ++ ·) (frame _).1 ?_⟩
      have isSome : w.registry.isSome = true := by simp [held]
      exact congrArg (fun models => [Report.mk path text (o.shown (Check.document _ _ ++ models))])
        (Check.models_getD _ _ ((frame _).2.trans isSome))

theorem checkDocument_of_read_error {f : FileFault} (unreadable : i.host.read path = .error f) :
    checkDocument i resolver o w path = .error f.message := by
  unfold checkDocument
  rw [unreadable]
  rfl

theorem mem_reports_of_foldlM {paths : List Bytes} (ran : paths.foldlM (checkDocument i resolver o) w = .ok w') :
    ∀ r ∈ w'.reports, r ∈ w.reports ∨ ∃ path ∈ paths, ∃ registry text, i.host.read path = .ok text ∧
      r = reportOf i resolver o registry path text := by
  induction paths generalizing w with
  | nil =>
      obtain rfl : w = w' := Except.ok.inj ran
      exact fun r member => .inl member
  | cons path paths ih =>
      rw [List.foldlM_cons] at ran
      cases result : i.host.read path with
      | error f =>
          rw [checkDocument_of_read_error result] at ran
          cases ran
      | ok text =>
          obtain ⟨next, checked, _, reports⟩ := checkDocument_of_read resolver o w result
          rw [checked] at ran
          intro r member
          obtain before | ⟨path', listed, registry, text', readable, rfl⟩ := ih ran r member
          · rw [reports, List.mem_append, List.mem_singleton] at before
            obtain before | rfl := before
            · exact .inl before
            · exact .inr ⟨path, List.mem_cons_self, next.registry, text, result, rfl⟩
          · exact .inr ⟨path', List.mem_cons_of_mem _ listed, registry, text', readable, rfl⟩

theorem inTwoParts_reportOf (limited : 0 < o.limit.toInt) (registry : Option Registry) :
    Check.InTwoParts o.limit.toInt (reportOf i resolver o registry path text).diagnostics := by
  unfold reportOf Options.shown
  dsimp only
  split
  · exact (Check.inTwoParts_append limited).filter _
  · exact Check.inTwoParts_append limited

/-! ## The verdict -/

def Work.hasErrors (w : Work) : Bool := count .error w.reports > 0

/-- Whether documents have faults, given whether those before have any and the path of one more. -/
def judge (i : Invocation) (resolver : Resolver) (faulty : Bool) (path : Bytes) : Except Bytes Bool := do
  let text ← (i.host.read path).mapError FileFault.message
  return faulty || !(Rule.faults (subjectOf i resolver path text)).isEmpty

theorem hasErrors_iff : w.hasErrors = true ↔ ∃ r ∈ w.reports, ∃ d ∈ r.diagnostics, d.severity = .error := by
  rw [Work.hasErrors, decide_eq_true_iff, count, gt_iff_lt, List.countP_pos_iff]
  simp only [List.mem_flatMap, beq_iff_eq]
  constructor
  · rintro ⟨d, ⟨r, listed, member⟩, error⟩
    exact ⟨r, listed, d, member, error⟩
  · rintro ⟨r, listed, d, member, error⟩
    exact ⟨d, ⟨r, listed, member⟩, error⟩

theorem exists_error_shown {found : List Diagnostic} :
    (∃ d ∈ o.shown found, d.severity = .error) ↔ ∃ d ∈ found, d.severity = .error := by
  unfold Options.shown
  split
  · simp
  · rfl

/-- A report holds an error exactly if the document is faulty, whatever the options are and whatever is known
    about models. -/
theorem exists_error_reportOf (registry : Option Registry) :
    (∃ d ∈ (reportOf i resolver o registry path text).diagnostics, d.severity = .error) ↔
      Rule.faults (subjectOf i resolver path text) ≠ [] := by
  rw [← Check.exists_error_iff o.limit.toInt]
  refine exists_error_shown.trans (exists_congr fun d => and_congr_left fun error => ?_)
  have other : d ∉ Check.modelFindings o.limit.toInt registry (subjectOf i resolver path text) := by
    intro member
    exact absurd (error.symm.trans (Check.kind_of_mem_modelFindings member).1) (by decide)
  rw [List.mem_append, or_iff_left other]

/-- What a check of one more document does to the verdict. The options have no part in it. -/
theorem map_checkDocument :
    (checkDocument i resolver o w path).map Work.hasErrors = judge i resolver w.hasErrors path := by
  cases result : i.host.read path with
  | error f =>
      -- both stop here, for the same reason
      rw [checkDocument_of_read_error result, judge, result]
      rfl
  | ok text =>
      obtain ⟨w', checked, _, reports⟩ := checkDocument_of_read resolver o w result
      have verdict : w'.hasErrors = (w.hasErrors || !(Rule.faults (subjectOf i resolver path text)).isEmpty) := by
        rw [Bool.eq_iff_iff, Bool.or_eq_true, hasErrors_iff, hasErrors_iff, reports]
        simp only [List.mem_append, List.mem_singleton, or_and_right, exists_or, exists_eq_left,
          exists_error_reportOf]
        simp
      rw [checked, judge, result]
      exact congrArg Except.ok verdict

theorem map_foldlM_checkDocument (paths : List Bytes) :
    (paths.foldlM (checkDocument i resolver o) w).map Work.hasErrors =
      paths.foldlM (judge i resolver) w.hasErrors := by
  induction paths generalizing w with
  | nil => rfl
  | cons path paths ih =>
      rw [List.foldlM_cons, List.foldlM_cons, ← map_checkDocument]
      cases checkDocument i resolver o w path with
      | error m => rfl
      | ok w' => exact ih

theorem map_foldlM_of_no_reports (fresh : w.reports = []) (paths : List Bytes) :
    (paths.foldlM (checkDocument i resolver o) w).map Work.hasErrors = paths.foldlM (judge i resolver) false := by
  rw [map_foldlM_checkDocument, Work.hasErrors, fresh]
  rfl

theorem foldlM_judge (resolver : Resolver) {paths : List Bytes}
    (readable : ∀ path ∈ paths, ∃ text, i.host.read path = .ok text) (faulty : Bool) :
    ∃ verdict, paths.foldlM (judge i resolver) faulty = .ok verdict ∧
      (verdict = true ↔ faulty = true ∨ ∃ path ∈ paths, ∃ text, i.host.read path = .ok text ∧
        Rule.faults (subjectOf i resolver path text) ≠ []) := by
  induction paths generalizing faulty with
  | nil => exact ⟨faulty, rfl, by simp⟩
  | cons path paths ih =>
      obtain ⟨text, here⟩ := readable path List.mem_cons_self
      obtain ⟨verdict, judged, exact⟩ := ih (fun p later => readable p (List.mem_cons_of_mem _ later))
        (faulty || !(Rule.faults (subjectOf i resolver path text)).isEmpty)
      refine ⟨verdict, ?_, ?_⟩
      · rw [List.foldlM_cons, judge, here]
        exact judged
      · rw [exact]
        simp [here, or_assoc]

theorem fault_report (c : Console) :
    (report i a o w c).fault = if w.hasErrors then some (utf8 "check found errors") else none := by
  simp [report, Work.hasErrors]

/-- A check fails for what stops it before the verdict, or for its verdict. -/
theorem fault_run (c : Console) : (run i a c).fault =
    match startTrace i a c with
    | .error m => some m
    | .ok _ =>
      match (do
        let _ ← Options.ofArguments a
        (← documents i.host a.rest).foldlM (judge i (resolverOf i)) false : Except Bytes Bool) with
      | .error m => some m
      | .ok faulty => if faulty then some (utf8 "check found errors") else none := by
  unfold run
  split
  · next started => rw [started]; rfl
  · next tracing c' started =>
      rw [started]
      cases options : Options.ofArguments a with
      | error m => rfl
      | ok o =>
          cases listed : documents i.host a.rest with
          | error m => rfl
          | ok paths =>
              let registry := if o.fetchModels then some (Registry.empty (fetchableProviders i.host.env)) else none
              simp only [bind, Except.bind]
              -- the options are in the run only, and the run is known by its verdict
              rw [← map_foldlM_of_no_reports (o := o) (w := { registry, tracer := tracing.tracer }) rfl, resolverOf]
              cases List.foldlM (checkDocument i _ o) _ paths with
              | error m => rfl
              | ok w => exact fault_report _

/-! ## Flags without a say in the verdict -/

/-- The options are refused for their path mode only, if they ask for a format that there is. -/
theorem ofArguments_bind {α : Type} (format : HasFormat a) (next : Except Bytes α) :
    (Options.ofArguments a >>= fun _ => next) =
      match PathMode.ofText? (a.text pathModeFlag) with
      | none => .error (utf8 "unknown path-mode value: " ++ a.text pathModeFlag)
      | some _ => next := by
  have accepted : (Bytes.lower (a.text formatFlag) != utf8 "pretty" &&
      Bytes.lower (a.text formatFlag) != utf8 "json") = false := by
    obtain pretty | json := format
    · simp [pretty]
    · simp [json]
  simp only [Options.ofArguments, accepted]
  cases PathMode.ofText? (a.text pathModeFlag) <;> rfl

theorem startTrace_congr (agree : a.AgreeApartFrom presentationFlags (flags ++ commonFlags) b) (c : Console) :
    startTrace i a c = startTrace i b c := by
  have path : a.text traceFlag = b.text traceFlag := agree.text (by decide) (by decide)
  have level : a.text traceLevelFlag = b.text traceLevelFlag := agree.text (by decide) (by decide)
  rw [startTrace, startTrace, path, level]

theorem fault_run_congr (agree : a.AgreeApartFrom presentationFlags (flags ++ commonFlags) b) (format : HasFormat a)
    (format' : HasFormat b) (c : Console) : (run i a c).fault = (run i b c).fault := by
  have mode : a.text pathModeFlag = b.text pathModeFlag := agree.text (by decide) (by decide)
  rw [fault_run, fault_run, startTrace_congr agree, ofArguments_bind format, ofArguments_bind format', mode,
    agree.rest]

/-- If nothing stops a check of documents that can be read, then it fails exactly if one of them is faulty. -/
theorem fault_run_iff {tracing : Tracing × Console} {c : Console} {paths : List Bytes}
    (started : startTrace i a c = .ok tracing) (accepted : Options.ofArguments a = .ok o)
    (listed : documents i.host a.rest = .ok paths) (readable : ∀ path ∈ paths, ∃ text, i.host.read path = .ok text) :
    (run i a c).fault = some (utf8 "check found errors") ↔
      ∃ path ∈ paths, ∃ text, i.host.read path = .ok text ∧
        Rule.faults (subjectOf i (resolverOf i) path text) ≠ [] := by
  obtain ⟨verdict, judged, exact⟩ := foldlM_judge (resolverOf i) readable false
  rw [fault_run, started, accepted, listed]
  simp only [bind, Except.bind, judged]
  rw [or_iff_right (by simp)] at exact
  rw [← exact]
  simp

/-- A limit leaves findings out, but it moves none and hides no failure: with it a document has an error exactly if
    it has one without. So a check of documents fails exactly if one of them has an error, and what is chosen to be
    shown has no say in it. -/
theorem limit_hides_no_failure :
    (∀ (s : Subject) (limit unlimited : Int), 0 < limit → unlimited ≤ 0 →
      (Check.document limit s).Sublist (Check.document unlimited s) ∧
      ((Check.document limit s).length : Int) ≤ limit ∧
      ((∃ d ∈ Check.document limit s, d.severity = .error) ↔
        ∃ d ∈ Check.document unlimited s, d.severity = .error)) ∧
    (∀ (i : Invocation) (a : Arguments) (c : Console) (tracing : Tracing × Console) (o : Options)
        (paths : List Bytes),
      startTrace i a c = .ok tracing → Options.ofArguments a = .ok o → documents i.host a.rest = .ok paths →
      (∀ path ∈ paths, ∃ text, i.host.read path = .ok text) →
      ((run i a c).fault = some (utf8 "check found errors") ↔
        ∃ path ∈ paths, ∃ text, i.host.read path = .ok text ∧
          ∃ d ∈ Check.document 0 (subjectOf i (resolverOf i) path text), d.severity = .error)) ∧
    (∀ (i : Invocation) (a b : Arguments) (c : Console),
      a.AgreeApartFrom presentationFlags (flags ++ commonFlags) b → HasFormat a → HasFormat b →
      (run i a c).fault = (run i b c).fault) := by
  refine ⟨?_, ?_, ?_⟩
  · intro s limit unlimited limited none
    refine ⟨Check.collect_sublist limited none, (Check.fits_collect limited).length_le, ?_⟩
    rw [Check.exists_error_iff, Check.exists_error_iff]
  · intro i a c tracing o paths started accepted listed readable
    simp only [Check.exists_error_iff]
    exact fault_run_iff started accepted listed readable
  · intro i a b c agree format format'
    exact fault_run_congr agree format format' c

/-- A host with one document, which has no header but a relative link. -/
def loneDocument : Invocation :=
  { arguments := [], host := ⟨⟨[([utf8 "d.lec"], .file (utf8 "[a](file://b)\n"))]⟩, utf8 "/", []⟩ }

/-- Arguments that ask for no more than one error of the document. -/
def oneError : Arguments :=
  { given := [("max-diagnostics", .whole 1), ("no-warnings", .truth true), ("format", .text (utf8 "json"))]
    rest := [utf8 "/d.lec"] }

/-- Arguments that ask for all about the document. -/
def allFindings : Arguments :=
  { given := [("max-diagnostics", .whole 0), ("with-notes", .truth true), ("suggest", .truth true)]
    rest := [utf8 "/d.lec"] }

theorem limit_hides_no_failure_at_one :
    (∃ d ∈ Check.document 1
        (subjectOf loneDocument (resolverOf loneDocument) (utf8 "/d.lec") (utf8 "[a](file://b)\n")),
      d.severity = .error) ∧
    (run loneDocument oneError ⟨.empty, [], []⟩).fault = some (utf8 "check found errors") ∧
    (run loneDocument allFindings ⟨.empty, [], []⟩).fault = some (utf8 "check found errors") := by
  let s := subjectOf loneDocument (resolverOf loneDocument) (utf8 "/d.lec") (utf8 "[a](file://b)\n")
  obtain ⟨limited, exact, congr⟩ := limit_hides_no_failure
  have unlimited : ∃ d ∈ Check.document 0 s, d.severity = .error :=
    (Check.exists_error_iff 0 s).mpr (by decide +kernel)
  have read : loneDocument.host.read (utf8 "/d.lec") = .ok (utf8 "[a](file://b)\n") := by decide +kernel
  have fails := (exact loneDocument allFindings ⟨.empty, [], []⟩ (.none, ⟨.empty, [], []⟩)
    ⟨false, .auto, true, true, false, false, 0, false⟩ [utf8 "/d.lec"] rfl rfl (by decide +kernel)
    (by simp [read])).mpr ⟨utf8 "/d.lec", List.mem_singleton_self _, _, read, unlimited⟩
  have same := congr loneDocument oneError allFindings ⟨.empty, [], []⟩ ⟨rfl, by decide +kernel⟩ (by decide +kernel)
    (by decide +kernel)
  exact ⟨(limited s 1 0 (by decide) (by decide)).2.2.mpr unlimited, same.trans fails, fails⟩

end Command.Check

end Colloquy
