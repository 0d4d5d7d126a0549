import Colloquy.Check.Basic
import Colloquy.Command.Console
import Colloquy.Host.Glob
import Colloquy.Report.Data
import Colloquy.Report.Pretty
import Colloquy.Time.Timing

/-! # Checking documents

The command that checks documents and reports what it found. Directories stand for the documents below
them. The command fails when there are errors.
-/

namespace Colloquy.Command.Check

def formatFlag : Flag := .text "format" "pretty"
def pathModeFlag : Flag := .text "path-mode" "auto"
def notesFlag : Flag := .truth "with-notes" none
def fixesFlag : Flag := .truth "suggest" none
/-- Show errors only. -/
def noWarningsFlag : Flag := .truth "no-warnings" none
def fetchFlag : Flag := .truth "fetch-models" none
def timeoutFlag : Flag :=
  { name := "fetch-timeout", kind := .duration, default := .duration 10000000000 }
def limitFlag : Flag := .whole "max-diagnostics" 200
def jobsFlag : Flag := .whole "jobs" 0
def timingsFlag : Flag := .truth "timings" none

def flags : List Flag :=
  [formatFlag, pathModeFlag, notesFlag, fixesFlag, noWarningsFlag, fetchFlag, timeoutFlag, limitFlag, jobsFlag,
    timingsFlag]

/-- What the flags ask for. -/
structure Options where
  isJson : Bool
  mode : PathMode
  notes : Bool
  fixes : Bool
  noWarnings : Bool
  fetchModels : Bool
  limit : Int64
  timings : Bool

def Options.ofArguments (a : Arguments) : Except Bytes Options := do
  let format := Bytes.lower (a.text formatFlag)
  if format != utf8 "pretty" && format != utf8 "json" then
    .error (utf8 "unsupported format " ++ Quoted.encode format ++ utf8 " (must be pretty or json)")
  match PathMode.ofText? (a.text pathModeFlag) with
  | none => .error (utf8 "unknown path-mode value: " ++ a.text pathModeFlag)
  | some mode => return {
      isJson := format == utf8 "json"
      mode
      notes := a.isSet notesFlag
      fixes := a.isSet fixesFlag
      noWarnings := a.isSet noWarningsFlag
      fetchModels := a.isSet fetchFlag
      limit := a.number limitFlag
      timings := a.isSet timingsFlag }

def documentsOf (host : Host) (argument : Bytes) : Except Bytes (List Bytes) :=
  match host.stat argument with
  | .error f => .error f.message
  | .ok (.file _) => .ok [Path.clean argument]
  | .ok .directory =>
    match Glob.paths host.files host.cwd (Path.join [argument, utf8 "**", utf8 "*.lec"]) with
    | .error f => .error (utf8 "search " ++ argument ++ utf8 ": " ++ f.message)
    | .ok found => .ok (found.map Path.clean)

/-- The documents that all arguments stand for, each once and in order. There must be one. -/
def documents (host : Host) (arguments : List Bytes) : Except Bytes (List Bytes) := do
  let found := (← arguments.mapM (documentsOf host)).flatten.eraseDups
  if found.isEmpty then .error (utf8 "no lectic documents found")
  return Bytes.sorted found

/-- What is gathered while documents are checked. -/
structure Work where
  registry : Option Registry
  timing : Timing := Timing.empty
  tracer : Trace.Tracer
  warnings : Bytes := []
  reports : List Report := []

/-- Fetch a provider's list, and note when that fails. -/
def fetchModels (i : Invocation) (path : Bytes) (w : Work) (provider : Bytes) : Work :=
  match w.registry with
  | none => w
  | some registry =>
    let key := ((i.host.env.get? (String.ofList ((Discovery.keyVariable provider).map fun b => Char.ofNat b.toNat))).map
      Bytes.trim).getD []
    let listing := Listing.ofProvider provider key (i.replies provider)
    let (result, registry) := registry.fetch provider (listing.result.mapError ListingFault.message)
    let w := { w with registry := some registry }
    match result with
    | .error (.failed p cause) =>
      { w with warnings := w.warnings ++ path ++ utf8 ": " ++ (FetchFault.failed p cause).message ++ [Bytes.lf] }
    | _ => w

def checkDocument (i : Invocation) (resolver : Resolver) (o : Options) (w : Work) (path : Bytes) :
    Except Bytes Work := do
  let (span, _, tracer) := w.tracer.startIn {} .feature (utf8 "check")
  let span := span.withExtra (utf8 "path") path
  let text ← (i.host.read path).mapError FileFault.message
  let abs := i.host.abs path
  let subject := Subject.resolve resolver i.host (Path.dir abs) abs text
  let limit := o.limit.toInt
  let found := Check.document limit subject
  let timing := [utf8 "parse", utf8 "resolve", utf8 "rules"].foldl (fun t name => t.add name 0) w.timing
  let w := { w with timing, tracer }
  let (found, w) := match w.registry with
    | none => (found, w)
    | some _ =>
      let w := (Check.modelProviders subject).foldl (fetchModels i path) w
      let models := Check.models limit (w.registry.getD (Registry.empty [])) subject
      (found ++ models, { w with timing := w.timing.add (utf8 "models") 0 })
  let found := if o.noWarnings then found.filter fun d => d.severity == .error else found
  return { w with
    tracer := w.tracer.finish span []
    reports := w.reports ++ [⟨path, text, found⟩] }

def count (severity : Severity) (reports : List Report) : Nat :=
  (reports.flatMap Report.diagnostics).countP fun d => d.severity == severity

/-- What the standard output can show. Output that is no terminal shows nothing but text unless the
    environment forces colours, and the environment may also forbid them. -/
def terminalOf (i : Invocation) : Style.Terminal :=
  let setting (name : String) : Bytes := (i.host.env.get? name).getD []
  let isForced := !(setting "CLICOLOR_FORCE").isEmpty && setting "CLICOLOR_FORCE" != utf8 "0"
  let isForbidden := !(setting "NO_COLOR").isEmpty || (setting "CLICOLOR" == utf8 "0" && !isForced)
  if !isForbidden && (i.isTerminal || isForced) then .colors else .plain

def render (i : Invocation) (a : Arguments) (o : Options) (reports : List Report) : Bytes :=
  let cwd := i.host.cwd
  if o.isJson then Report.json ⟨o.mode, cwd, cwd, 0, o.notes, o.fixes⟩ reports
  else
    Report.pretty ⟨isColored i a, terminalOf i, o.mode, cwd, cwd, o.notes, o.fixes⟩ reports

def report (i : Invocation) (a : Arguments) (o : Options) (w : Work) (c : Console) : Progress :=
  let c := (c.warn w.warnings).print (render i a o w.reports)
  let c := if o.timings then c.warn w.timing.summary else c
  let errors := count .error w.reports
  let warnings := count .warning w.reports
  let c :=
    if o.isJson || (errors == 0 && warnings == 0) then c
    else c.warn (Bytes.ofNat errors ++ utf8 " error(s), " ++ Bytes.ofNat warnings ++ utf8 " warning(s) in " ++
      Bytes.ofNat w.reports.length ++ utf8 " document(s)\n")
  ⟨c, if errors > 0 then some (utf8 "check found errors") else none⟩

def run (i : Invocation) (a : Arguments) (c : Console) : Progress :=
  match startTrace i a c with
  | .error m => .failed c m
  | .ok (tracing, c) =>
    let env := i.host.env
    let checked : Except Bytes (Options × Work) := do
      let o ← Options.ofArguments a
      let paths ← documents i.host a.rest
      let resolver : Resolver := ⟨Discovery.systemConfig env [], false⟩
      let registry := if o.fetchModels then some (Registry.empty (fetchableProviders env)) else none
      let w ← paths.foldlM (checkDocument i resolver o) { registry, tracer := tracing.tracer }
      return (o, w)
    match checked with
    | .error m => .failed c m
    | .ok (o, w) => report i a o w ({ tracing with tracer := w.tracer }.write i.host.cwd c)

end Colloquy.Command.Check
