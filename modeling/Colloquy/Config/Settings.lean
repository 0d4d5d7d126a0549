import Colloquy.Config.Discovery
import Colloquy.Json.Decode
import Colloquy.Toml.Document

/-! # Language server settings

The settings with their defaults, and how a settings file changes them. Numbers are 64-bit words. A
missing file changes nothing; a file that cannot be read, is not TOML or has a value of the wrong kind
leaves the defaults and is reported.
-/

namespace Colloquy

/-- The settings of the language server. -/
structure Settings where
  /-- Milliseconds to wait after a change before documents are checked. -/
  debounceMs : Int64
  maxDiagnostics : Int64
  fetchModels : Bool
  previewBytes : Int64
  globLimit : Int64
  /-- The user's configuration file, if it is not the usual one. -/
  systemConfig : Bytes
  deriving Repr, DecidableEq

namespace Settings

/-- The settings without a settings file. -/
def default : Settings := ⟨250, 200, true, 2048, 20, []⟩

/-- The waiting time in nanoseconds, a 64-bit word. -/
def debounce (s : Settings) : Int64 := if s.debounceMs ≤ 0 then 0 else s.debounceMs * 1000000

def integer? : Toml.Item → Option Int64
  | .integer n => some (Int64.ofInt n)
  | _ => none

def bool? : Toml.Item → Option Bool
  | .bool b => some b
  | _ => none

def text? : Toml.Item → Option Bytes
  | .text t => some t
  | _ => none

/-- Set the field that a name means, whatever its case; other names are ignored. -/
def set (s : Settings) (name : Bytes) (item : Toml.Item) : Option Settings :=
  let isName (field : String) : Bool := Json.foldName name == Json.foldName (utf8 field)
  if isName "debounce_ms" then (integer? item).map fun n => { s with debounceMs := n }
  else if isName "max_diagnostics" then (integer? item).map fun n => { s with maxDiagnostics := n }
  else if isName "fetch_models" then (bool? item).map fun b => { s with fetchModels := b }
  else if isName "preview_bytes" then (integer? item).map fun n => { s with previewBytes := n }
  else if isName "glob_limit" then (integer? item).map fun n => { s with globLimit := n }
  else if isName "system_config" then (text? item).map fun t => { s with systemConfig := t }
  else some s

def ofText? (t : Bytes) : Option Settings := do
  let table ← Toml.parse? t
  let s ← table.foldlM (fun s e => s.set e.1 e.2) default
  return { s with maxDiagnostics := if s.maxDiagnostics < 0 then 0 else s.maxDiagnostics }

/-- Why a settings file does not count. -/
inductive Fault
  | file (fault : FileFault)
  | content
  deriving Repr, DecidableEq

/-- The settings of a file, and what is wrong with it. -/
def load (host : Host) (path : Bytes) : Settings × Option Fault :=
  if path.isEmpty then (default, none)
  else match host.read path with
    | .ok text => match ofText? text with
      | some s => (s, none)
      | none => (default, some .content)
    | .error f => (default, if f.problem = .notExist then none else some (.file f))

end Settings

end Colloquy
