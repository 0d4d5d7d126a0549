import Colloquy.Proofs.Command.Check
import Colloquy.Server.Findings

/-! # How much is shown of a document

The server publishes the findings on a document's structure and those on its models as one list, and so does a
report. The maximum for a document holds for each of the two, and so does the order. Where no model is unknown they
hold for the whole.
-/

namespace Colloquy

namespace Server

/-- What is checked for an open document. -/
def subjectOf (s : Server) (host : Host) (d : OpenDocument) : Subject := (s.viewOf host d).1.subject

/-- The findings on an open document. -/
def findings (s : Server) (host : Host) (d : OpenDocument) : List Diagnostic :=
  Check.document s.settings.maxDiagnostics.toInt (s.subjectOf host d) ++
    Check.modelFindings s.settings.maxDiagnostics.toInt s.registry (s.subjectOf host d)

/-- The server publishes the findings in the editor's terms, and one for each. -/
theorem diagnose_fst (s : Server) (host : Host) (d : OpenDocument) :
    (s.diagnose host d).1 = (s.findings host d).map (Wire.Finding.ofDiagnostic d.uri (LineIndex.ofText d.text)) := by
  -- the view keeps a copy of the document, and leaves the settings and the models as they are
  have settings : (s.viewOf host d).2.settings = s.settings := rfl
  have registry : (s.viewOf host d).2.registry = s.registry := rfl
  have lines : (s.viewOf host d).1.lines = LineIndex.ofText d.text := rfl
  unfold diagnose findings
  simp only [settings, registry, lines]
  cases s.registry with
  | none => simp [Check.modelFindings, subjectOf]
  | some models => simp [Check.modelFindings, subjectOf]

/-- What is shown of a document, by the server or in a report, comes in two parts, and the maximum and the order
    hold for each of them. They hold for the whole where no model is unknown, and in general exactly if both parts
    together are not too many and no finding on models belongs before another one. -/
theorem shown_fits_unless_unknown_models (limit : Int) (limited : 0 < limit) :
    (∀ (s : Server) (host : Host) (d : OpenDocument) (shown : List Diagnostic),
      s.settings.maxDiagnostics.toInt = limit → s.findings host d = shown →
        (s.diagnose host d).1 = shown.map (Wire.Finding.ofDiagnostic d.uri (LineIndex.ofText d.text)) ∧
        Check.InTwoParts limit shown ∧
        ((∀ e ∈ shown, e.code ≠ .unknownModel) → Diagnostic.Fits limit shown) ∧
        (Diagnostic.Fits limit shown ↔ (shown.length : Int) ≤ limit ∧
          ∀ e ∈ shown, ∀ f ∈ shown, e.code ≠ .unknownModel → f.code = .unknownModel → e.place ≤ f.place)) ∧
    (∀ (i : Invocation) (resolver : Resolver) (o : Command.Check.Options) (w w' : Command.Check.Work)
        (paths : List Bytes), o.limit.toInt = limit → w.reports = [] →
      paths.foldlM (Command.Check.checkDocument i resolver o) w = .ok w' → ∀ r ∈ w'.reports,
        Check.InTwoParts limit r.diagnostics ∧
        ((∀ e ∈ r.diagnostics, e.code ≠ .unknownModel) → Diagnostic.Fits limit r.diagnostics) ∧
        (Diagnostic.Fits limit r.diagnostics ↔ (r.diagnostics.length : Int) ≤ limit ∧
          ∀ e ∈ r.diagnostics, ∀ f ∈ r.diagnostics, e.code ≠ .unknownModel → f.code = .unknownModel →
            e.place ≤ f.place)) := by
  constructor
  · rintro s host d shown rfl rfl
    have parts : Check.InTwoParts _ (s.findings host d) := Check.inTwoParts_append limited
    exact ⟨diagnose_fst s host d, parts, parts.fits, parts.fits_iff⟩
  · rintro i resolver o w w' paths rfl fresh ran r member
    obtain before | ⟨path, _, registry, text, _, rfl⟩ := Command.Check.mem_reports_of_foldlM ran r member
    · rw [fresh] at before
      exact absurd before List.not_mem_nil
    · have parts : Check.InTwoParts _ (Command.Check.reportOf i resolver o registry path text).diagnostics :=
        Command.Check.inTwoParts_reportOf limited registry
      exact ⟨parts, parts.fits, parts.fits_iff⟩

/-- A server that shows one finding of a document at most, and that knows of one model. -/
def knowsOneModel : Server :=
  { settings := { Settings.default with maxDiagnostics := 1 }
    resolver := ⟨[], false⟩
    registry := some ((Registry.empty []).seed (utf8 "anthropic") [utf8 "claude-real"]) }

/-- A document with another model, and with a relative link below it. -/
def namesOtherModel : OpenDocument :=
  { uri := utf8 "file:///d.lec"
    text := utf8 ("---\ninterlocutor:\n  name: A\n  prompt: hi\n  provider: anthropic\n  model: claude-bogus\n---\n" ++
      "[a](file://b)\n")
    version := 1 }

/-- With a maximum of one, a report on a document without a header holds one of its two findings, and the server
    shows one for each part. -/
theorem shown_fits_unless_unknown_models_at_one :
    Check.InTwoParts 1 (knowsOneModel.findings ⟨.empty, utf8 "/", []⟩ namesOtherModel) ∧
    Diagnostic.Fits 1 (knowsOneModel.findings ⟨.empty, utf8 "/", []⟩
      { namesOtherModel with text := utf8 "[a](file://b)\n" }) ∧
    ∃ w, [utf8 "/d.lec"].foldlM (Command.Check.checkDocument Command.Check.loneDocument ⟨[], false⟩
        ⟨false, .auto, false, false, false, false, 1, false⟩) { registry := none, tracer := .off } = .ok w ∧
      w.reports ≠ [] ∧ ∀ r ∈ w.reports, Diagnostic.Fits 1 r.diagnostics := by
  obtain ⟨published, reported⟩ := shown_fits_unless_unknown_models 1 (by decide)
  have read : Command.Check.loneDocument.host.read (utf8 "/d.lec") = .ok (utf8 "[a](file://b)\n") := by decide +kernel
  obtain ⟨w, checked, unchecked, reports⟩ := Command.Check.checkDocument_of_read ⟨[], false⟩
    ⟨false, .auto, false, false, false, false, 1, false⟩ { registry := none, tracer := .off } read
  have noRegistry : w.registry = none := by simpa using unchecked
  have ran := congrArg (· >>= pure) checked
  refine ⟨(published knowsOneModel _ namesOtherModel _ (by decide) rfl).2.1,
    (published knowsOneModel _ _ _ (by decide) rfl).2.2.1 (by decide +kernel), w, ran, by simp [reports], ?_⟩
  intro r member
  refine (reported _ _ _ _ w [utf8 "/d.lec"] (by decide) rfl ran r member).2.1 ?_
  rw [reports, noRegistry, List.nil_append, List.mem_singleton] at member
  rw [member]
  decide +kernel

/-- Two findings are published where one is the maximum, and the one above comes last. -/
theorem models_exceed_limit :
    knowsOneModel.settings.maxDiagnostics.toInt = 1 ∧
    (knowsOneModel.diagnose ⟨.empty, utf8 "/", []⟩ namesOtherModel).1.length = 2 ∧
    ¬ Diagnostic.InOrder (knowsOneModel.findings ⟨.empty, utf8 "/", []⟩ namesOtherModel) := by
  decide +kernel

end Server

end Colloquy
