import Colloquy.Command.Console
import Colloquy.Server.Dispatch

/-! # Serving an editor

The command that runs the language server over the standard streams.
-/

namespace Colloquy.Command.Serve

/-- How long to wait after a change, in milliseconds. -/
def debounceFlag : Flag := .whole "debounce" (-1)
def limitFlag : Flag := .whole "max-diagnostics" (-1)
/-- Fetch no model lists. -/
def noFetchFlag : Flag := .truth "no-model-fetch" none
def settingsFlag : Flag := .text "settings" ""

def flags : List Flag := [debounceFlag, limitFlag, noFetchFlag, settingsFlag]

def settingsPath (i : Invocation) (a : Arguments) : Bytes :=
  let given := a.text settingsFlag
  if given.isEmpty then Discovery.settingsFile i.host.env [] else given

/-- The settings with what the flags ask for; negative numbers ask for nothing. -/
def withFlags (s : Settings) (a : Arguments) : Settings :=
  let debounce := a.number debounceFlag
  let limit := a.number limitFlag
  { s with
    debounceMs := if debounce ≥ 0 then debounce else s.debounceMs
    maxDiagnostics := if limit ≥ 0 then limit else s.maxDiagnostics
    fetchModels := s.fetchModels && !a.isSet noFetchFlag }

/-- The wording for a settings file that does not count. -/
def settingsProblem (path : Bytes) (f : Settings.Fault) : Bytes :=
  utf8 "lsp: failed to parse " ++ path ++ utf8 ": " ++
    (match f with
      | .file f => f.message
      | .content => utf8 "the file is not valid") ++ utf8 "\n"

/-- The server at its start, and what is wrong with the settings file. -/
def server (i : Invocation) (a : Arguments) (tracer : Trace.Tracer) : Server × Bytes :=
  let path := settingsPath i a
  let (settings, fault) := Settings.load i.host path
  let env := i.host.env
  let s := Server.start (withFlags settings a) ⟨Discovery.systemConfig env [], false⟩
  ({ s with registry := some (Registry.empty (fetchableProviders env)), keys := env, tracer },
    (fault.map (settingsProblem path)).getD [])

/-- Why the session failed, if it did. -/
def faultOf : Server.End → Option Bytes
  | .stopped .exit => none
  | .stopped stop => some stop.message
  | .stream .finished => none
  | .stream stop => some stop.message

/-- Serve until the input ends. Nothing waits for the time after which documents would be checked. -/
def run (i : Invocation) (a : Arguments) (c : Console) : Progress :=
  match startTrace i a c with
  | .error m => .failed c m
  | .ok (tracing, c) =>
    let (s, problem) := server i a tracing.tracer
    let (s, stop) := s.runAll i.host i.input
    let (sent, log, s) := s.drain
    let c := c.warn (problem ++ log.flatMap fun l => l ++ [Bytes.lf])
    let c := c.print (sent.flatMap fun m => Frame.write m.compact)
    ⟨{ tracing with tracer := s.tracer }.write i.host.cwd c, faultOf stop⟩

end Colloquy.Command.Serve
