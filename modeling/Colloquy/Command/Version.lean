import Colloquy.Command.Console
import Colloquy.Release
import Colloquy.Text.Case

/-! # Showing the version

The command that shows the version, and the commit and date of the build when asked for.
-/

namespace Colloquy.Command.Version

def hashFlag : Flag := .truth "hash" none
def dateFlag : Flag := .truth "date" none
def fullFlag : Flag := .truth "full" none
def formatFlag : Flag := .text "format" "pretty"

def flags : List Flag := [hashFlag, dateFlag, fullFlag, formatFlag]

/-- What is shown for something that is not known. -/
def orUnknown (t : Bytes) : Bytes := if t.isEmpty then utf8 "unknown" else t

/-- Which parts are shown. -/
structure Parts where
  commit : Bool
  date : Bool

def pretty (r : Release) (parts : Parts) (color : Bool) : Bytes :=
  utf8 "lectic " ++ r.pretty color ++ utf8 "\n" ++
    (if parts.commit then utf8 "commit: " ++ orUnknown r.shortCommit ++ utf8 "\n" else []) ++
    (if parts.date then utf8 "built:  " ++ orUnknown r.date ++ utf8 "\n" else [])

def data (r : Release) (parts : Parts) : Json :=
  Json.obj ([("tool", Json.str "lectic"), ("version", .ofText r.version)] ++
    (if parts.commit then [("git_commit", Json.ofText (orUnknown (Bytes.trim r.commit)))] else []) ++
    (if parts.date then [("build_date", Json.ofText (orUnknown (Bytes.trim r.date)))] else []))

/-- Show the version. Colours are off for good where the environment says so. -/
def run (noColor : Bool) (i : Invocation) (a : Arguments) (c : Console) : Progress :=
  let full := a.isSet fullFlag
  let parts : Parts := ⟨a.isSet hashFlag || full, a.isSet dateFlag || full⟩
  let format := a.text formatFlag
  let word := Bytes.lower format
  if word == utf8 "pretty" then ⟨c.print (pretty .current parts (isColored i a && !noColor)), none⟩
  else if word == utf8 "json" then ⟨c.print (data .current parts).document, none⟩
  else .failed c (utf8 "unsupported format " ++ Quoted.encode format ++ utf8 " (must be pretty or json)")

end Colloquy.Command.Version
