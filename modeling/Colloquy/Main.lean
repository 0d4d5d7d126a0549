import Colloquy.Command.Program

/-! # The command line

The outer layer of the program: it reads arguments, environment, files and input, hands them to the pure
program as one value, and writes what comes back. The language server reads the files around the open
documents again before each message.
-/

namespace Colloquy.Main

def environmentNames : List String :=
  ["HOME", "LECTIC_CONFIG", "XDG_CONFIG_HOME", "NO_COLOR", "CLICOLOR", "CLICOLOR_FORCE"] ++ Discovery.providerKeys.map (·.2)

def stringOf (t : Bytes) : String := (String.fromUTF8? (ByteArray.mk t.toArray)).getD ""

def environment : IO Environment :=
  environmentNames.filterMapM fun name => do return (← IO.getEnv name).map fun v => (utf8 name, utf8 v)

/-- Add what lies at an absolute path, and below it down to a depth. What cannot be read is left out. -/
partial def load (depth : Nat) (tree : FileTree) (path : Bytes) : IO FileTree := do
  let here := (← IO.currentDir) / stringOf path
  if ← here.isDir then
    let tree := tree.add path .directory
    if depth == 0 then return tree
    let mut tree := tree
    for entry in ← here.readDir do
      tree ← load (depth - 1) tree (Path.join [path, utf8 entry.fileName])
    return tree
  else
    try
      let content ← IO.FS.readBinFile here
      return tree.add path (.file content.data.toList)
    catch _ => return tree

def loadConfigs (tree : FileTree) (dir : Bytes) : IO FileTree :=
  (Path.ancestors (Path.cleaned dir).reverse).foldlM (fun tree at_ =>
    load 0 tree (Path.join [Path.ofComponents true at_, Discovery.configName])) tree

def depth : Nat := 16

/-- The files that paths lead to, with the configuration that counts for them. -/
def loadAll (env : Environment) (cwd : Bytes) (paths : List Bytes) : IO FileTree := do
  let own := [Path.join [cwd, EnvironmentFile.fileName], Discovery.systemConfig env [], Discovery.settingsFile env []]
  let mut tree := FileTree.empty.add cwd .directory
  for path in own.filter fun p => !p.isEmpty do
    tree ← load 0 tree (Path.abs cwd path)
  for path in cwd :: paths do
    tree ← load 0 tree (Path.dir path)
    tree ← loadConfigs tree path
  for path in paths do
    tree ← load depth tree path
  return tree

def store (before after : FileTree) : IO Unit :=
  after.entries.forM fun e => do
    match e.2 with
    | .file content =>
      if before.lookup? e.1 != some (.file content) then
        IO.FS.writeBinFile (stringOf (Path.ofComponents true e.1)) (ByteArray.mk content.toArray)
    | .directory => pure ()

def write (stream : IO.FS.Stream) (t : Bytes) : IO Unit := do
  stream.write (ByteArray.mk t.toArray)
  stream.flush

/-- The time, counted from the start of the host's clock. -/
def now : IO Moment := do return (← IO.monoNanosNow : Nat)

/-- The headers of the next frame, as far as there are any. -/
partial def readHeaders (input : IO.FS.Stream) (seen : Bytes) : IO Bytes := do
  let line := utf8 (← input.getLine)
  let seen := seen ++ line
  if line.all fun b => b == Bytes.cr || b == Bytes.lf then return seen else readHeaders input seen

def readFrame (input : IO.FS.Stream) : IO (Except Frame.Stop Bytes) := do
  let head ← readHeaders input []
  match Frame.headers (head.length + 1) none head with
  | .error stop => return .error stop
  | .ok (none, _) => return .error .missingLength
  | .ok (some n, _) =>
    if n == 0 then return .ok []
    let body := (← input.read n.toUSize).data.toList
    if body.length == n then return .ok body
    else if body.isEmpty then return .error .finished
    else return .error .cutShort

/-- Wait for a frame, but not past a deadline in milliseconds. -/
partial def await (frame : Task (Except IO.Error (Except Frame.Stop Bytes))) (deadline : Option Nat) :
    IO (Option (Except Frame.Stop Bytes)) := do
  if ← IO.hasFinished frame then
    match ← IO.wait frame with
    | .ok result => return some result
    | .error _ => return some (.error .finished)
  else
    match deadline with
    | some d => if (← IO.monoMsNow) ≥ d then return none
    | none => pure ()
    IO.sleep 5
    await frame deadline

def flush (output errors : IO.FS.Stream) (s : Server) : IO Server := do
  let (sent, log, s) := s.drain
  write output (sent.flatMap fun m => Frame.write m.compact)
  write errors (log.flatMap fun l => l ++ [Bytes.lf])
  return s

def hostFor (env : Environment) (cwd : Bytes) (s : Server) : IO Host := do
  let dirs := (s.documents.map fun d => Uri.directory cwd d.uri).filter fun d => !d.isEmpty
  return ⟨← loadAll env cwd (s.roots ++ dirs).eraseDups, cwd, env⟩

def finish (errors : IO.FS.Stream) (stop : Server.End) : IO UInt32 := do
  match Command.Serve.faultOf stop with
  | none => return 0
  | some m =>
    write errors (utf8 "Error: " ++ m ++ [Bytes.lf])
    return 1

/-- Serve an editor: handle each message, and check documents when no message comes for a while. No
    network is reached, so that model lists stay absent. -/
partial def serve (input output errors : IO.FS.Stream) (env : Environment) (cwd : Bytes) (s : Server)
    (frame : Task (Except IO.Error (Except Frame.Stop Bytes))) (deadline : Option Nat) : IO UInt32 := do
  match ← await frame deadline with
  | none =>
    let s := s.runSchedule (← hostFor env cwd s) s.schedule
    let s := s.fetching.foldl (fun s p => s.receiveModels p (.error [])) s
    serve input output errors env cwd (← flush output errors s) frame none
  | some (.error stop) => finish errors (.stream stop)
  | some (.ok payload) =>
    let before := s.schedule
    let (s, stop) := s.receive (← hostFor env cwd s) payload
    let s ← flush output errors s
    match stop with
    | some stop => finish errors (.stopped stop)
    | none =>
      let next ← IO.asTask (readFrame input)
      let wait := (s.settings.debounce / 1000000).toNatClampNeg
      let time ← IO.monoMsNow
      let deadline := if s.schedule == before then deadline else some (time + wait)
      serve input output errors env cwd s next deadline

/-- Write what a command leaves behind. -/
def conclude (tree : FileTree) (output errors : IO.FS.Stream) (o : Outcome) : IO UInt32 := do
  write output o.output
  write errors o.errors
  store tree o.files
  return o.exit.toUInt32

def run (arguments : List String) : IO UInt32 := do
  let env ← environment
  let cwd := utf8 (← IO.currentDir).toString
  let arguments := arguments.map utf8
  let words := (arguments.filter Command.isWord).map (Path.abs cwd)
  let tree ← loadAll env cwd words
  let host : Host := ⟨tree, cwd, env⟩
  let output ← IO.getStdout
  let errors ← IO.getStderr
  let invocation : Invocation := { arguments, host, isTerminal := ← output.isTty, now := ← now }
  match Command.find arguments with
  | .ok (some .serve, rest) =>
    match Arguments.parse Command.serve.flags rest with
    | .ok a =>
      if a.isSet Command.helpFlag then return 0
      let input ← IO.getStdin
      let host := EnvironmentFile.load host
      let (s, problem) := Command.Serve.server { invocation with host } a Trace.Tracer.off
      write errors problem
      serve input output errors host.env cwd s (← IO.asTask (readFrame input)) none
    | .error _ => conclude tree output errors (Command.run invocation)
  | _ => conclude tree output errors (Command.run invocation)

end Colloquy.Main

def main (arguments : List String) : IO UInt32 := Colloquy.Main.run arguments
