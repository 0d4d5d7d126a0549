import Colloquy.Config.Settings

/-! # Live settings

An editor may change settings while the server runs. Values that are left out, and values that make no
sense, change nothing; settings that cannot be read change nothing at all.
-/

namespace Colloquy

/-- The settings that an editor may send. -/
structure Overlay where
  debounceMs : Option Int64 := none
  maxDiagnostics : Option Int64 := none
  fetchModels : Option Bool := none
  previewBytes : Option Int64 := none
  globLimit : Option Int64 := none
  deriving Repr, DecidableEq

namespace Overlay

def number (current : Option Int64) (j : Json) : Option (Option Int64) :=
  Json.decodeOption Json.decodeInt64 0 current j

def decode : Overlay → Json → Option Overlay :=
  Json.decodeRecord [
    ("debounceMs", fun o j => (number o.debounceMs j).map fun n => { o with debounceMs := n }),
    ("maxDiagnostics", fun o j => (number o.maxDiagnostics j).map fun n => { o with maxDiagnostics := n }),
    ("fetchModels", fun o j =>
      (Json.decodeOption Json.decodeBool false o.fetchModels j).map fun b => { o with fetchModels := b }),
    ("previewBytes", fun o j => (number o.previewBytes j).map fun n => { o with previewBytes := n }),
    ("globLimit", fun o j => (number o.globLimit j).map fun n => { o with globLimit := n })]

def ofJson? (j : Json) : Option Overlay := Json.decodeRecord [("lectic", decode)] {} j

/-- The value if it passes a test, or the current one. -/
def choose {α : Type} (test : α → Bool) (value : Option α) (current : α) : α :=
  (value.filter test).getD current

end Overlay

def Settings.overlay (s : Settings) (o : Overlay) : Settings :=
  { s with
    debounceMs := Overlay.choose (· ≥ 0) o.debounceMs s.debounceMs
    maxDiagnostics := Overlay.choose (· ≥ 0) o.maxDiagnostics s.maxDiagnostics
    fetchModels := o.fetchModels.getD s.fetchModels
    previewBytes := Overlay.choose (· > 0) o.previewBytes s.previewBytes
    globLimit := Overlay.choose (· > 0) o.globLimit s.globLimit }

/-- The settings after what an editor sent, if it sent anything. -/
def Settings.applyLive (s : Settings) (sent : Option Json) : Settings :=
  match sent.bind Overlay.ofJson? with
  | some o => s.overlay o
  | none => s

end Colloquy
