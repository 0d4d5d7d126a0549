import Colloquy.Host.Environment
import Colloquy.Text.Quoted
import Colloquy.Text.Space

/-! # Finding configuration

Where configuration files are looked for: a directory that the environment names, and for a document the
nearest directory above it that holds a configuration file. Also which provider is used when a document
names none, and the header that is offered to a document without one.
-/

namespace Colloquy.Discovery

def configName : Bytes := utf8 "lectic.yaml"

def settingsName : Bytes := utf8 "lsp.toml"

/-- The value of a variable that is set and not empty. -/
def nonEmpty? (env : Environment) (name : String) : Option Bytes :=
  (env.get? name).filter fun v => !v.isEmpty

/-- The directory of the user's configuration: that of its own variable, else one inside the general
    configuration directory, else one inside the home directory, for which `home` stands in. -/
def systemDir (env : Environment) (home : Bytes) : Bytes :=
  match nonEmpty? env "LECTIC_CONFIG" with
  | some dir => dir
  | none => match nonEmpty? env "XDG_CONFIG_HOME" with
    | some dir => Path.join [dir, utf8 "lectic"]
    | none =>
      let home := (nonEmpty? env "HOME").getD home
      if home.isEmpty then [] else Path.join [home, utf8 ".config", utf8 "lectic"]

/-- A file of the user's configuration directory, if there is such a directory. -/
def inSystemDir (env : Environment) (home name : Bytes) : Bytes :=
  let dir := systemDir env home
  if dir.isEmpty then [] else Path.join [dir, name]

def systemConfig (env : Environment) (home : Bytes) : Bytes := inSystemDir env home configName

def settingsFile (env : Environment) (home : Bytes) : Bytes := inSystemDir env home settingsName

/-- What the search for a workspace configuration finds. -/
inductive Finding
  | found (path : Bytes)
  | nothing
  /-- A candidate whose kind could not be told. -/
  | failed (candidate : Bytes) (fault : FileFault)
  deriving Repr, DecidableEq

def failure (candidate : Bytes) (fault : FileFault) : Bytes :=
  utf8 "failed to stat " ++ Quoted.encode candidate ++ utf8 ": " ++ fault.message

/-- The first of the directories that holds a configuration file. A directory of that name does not
    count; a failure other than absence ends the search. -/
def firstIn (host : Host) : List (List Bytes) → Finding
  | [] => .nothing
  | dir :: rest =>
    let candidate := Path.ofComponents true (dir ++ [configName])
    match host.stat candidate with
    | .ok (.file _) => .found candidate
    | .ok .directory => firstIn host rest
    | .error f => if f.problem = .notExist then firstIn host rest else .failed candidate f

/-- The nearest configuration file at or above a directory; a search that is `stopped` finds nothing. -/
def workspaceConfig (host : Host) (start : Bytes) (stopped : Bool) : Finding :=
  if stopped then .nothing
  else
    let dir := host.abs (if start.isEmpty then Path.here else start)
    firstIn host (Path.ancestors (Path.cleaned dir).reverse)

/-- The providers in order of preference, each with the variable of its key. -/
def providerKeys : List (String × String) :=
  [("anthropic", "ANTHROPIC_API_KEY"), ("gemini", "GEMINI_API_KEY"), ("openai", "OPENAI_API_KEY"),
   ("openrouter", "OPENROUTER_API_KEY")]

/-- The variable of a provider's key; empty for a provider that is not known. -/
def keyVariable (provider : Bytes) : Bytes :=
  match providerKeys.find? fun p => utf8 p.1 == provider with
  | some p => utf8 p.2
  | none => []

/-- Whether a variable is set to something that is not blank. -/
def isSet (env : Environment) (name : String) : Bool :=
  match env.get? name with
  | some v => !Bytes.isBlank v
  | none => false

/-- The first provider whose key is set. -/
def defaultProvider? (env : Environment) : Option Bytes :=
  (providerKeys.find? fun p => isSet env p.2).map fun p => utf8 p.1

def minimalHeader (provider : Option Bytes) : Bytes :=
  utf8 "---\ninterlocutor:\n  name: Assistant\n  prompt: You are a helpful assistant.\n" ++
    (match provider with
      | some p => utf8 "  provider: " ++ p ++ utf8 "\n"
      | none => []) ++
    utf8 "---\n"

end Colloquy.Discovery
