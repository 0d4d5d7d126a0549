import Colloquy.Command.Check
import Colloquy.Command.Serve
import Colloquy.Command.Version
import Colloquy.Suggestion

/-! # The program

Which command a command line means, and how it is run. The first argument that is neither a flag nor the
value of one names the command. Help texts are no part of what is modelled here: a command that would
only show help writes nothing.
-/

namespace Colloquy

/-- The commands. -/
inductive Command
  | serve
  | check
  | version
  | help
  | completion
  deriving Repr, DecidableEq

namespace Command

def name : Command → String
  | .serve => "lsp"
  | .check => "check"
  | .version => "version"
  | .help => "help"
  | .completion => "completion"

def all : List Command := [.serve, .check, .version, .help, .completion]

def flags : Command → List Flag
  | .serve => Serve.flags ++ commonFlags
  | .check => Check.flags ++ commonFlags
  | .version => Version.flags ++ commonFlags
  | .help => commonFlags
  | .completion => commonFlags

def versionFlag : Flag := .truth "version" (some 'v')

/-- Whether an argument before the command takes the next one as its value. -/
def takesValue (argument : Bytes) : Bool :=
  !argument.any (· == 0x3D) &&
    (match argument with
      | 0x2D :: 0x2D :: _ => true
      | [0x2D, _] => true
      | _ => false)

/-- Whether an argument is neither a flag nor empty. -/
def isWord (argument : Bytes) : Bool := !argument.isEmpty && argument.head? != some 0x2D

/-- The first word of a command line, flags and their values apart. A flag whose value is the last
    argument ends the search. -/
def firstWord? : List Bytes → Option Bytes
  | [] => none
  | [argument] => if isWord argument then some argument else none
  | argument :: value :: others =>
    if argument == utf8 "--" then none
    else if takesValue argument then (if others.isEmpty then none else firstWord? others)
    else if isWord argument then some argument
    else firstWord? (value :: others)

/-- The arguments without the first occurrence of a word that is neither a flag nor the value of one. -/
def without (word : Bytes) : List Bytes → List Bytes
  | [] => []
  | [argument] => if argument == word then [] else [argument]
  | argument :: value :: others =>
    if argument == utf8 "--" then argument :: value :: others
    else if takesValue argument then argument :: value :: without word others
    else if argument == word then value :: others
    else argument :: without word (value :: others)

/-- The least number of edits between two words, byte by byte, whatever their case. -/
def distance (a b : Bytes) : Nat :=
  let codes (t : Bytes) : List Nat := (Bytes.lower t).map UInt8.toNat
  ((Suggestion.rows (codes b) (List.range ((codes b).length + 1)) (codes a)).getLast?).getD 0

/-- The commands that a word may have meant: those two edits away, and those that start with it. -/
def suggestions (word : Bytes) : List Command :=
  (all.filter (· != .help)).filter fun c =>
    distance word (utf8 c.name) ≤ 2 || Bytes.startsWith (Bytes.lower (utf8 c.name)) (Bytes.lower word)

/-- The wording for a word that names no command. -/
def unknownCommand (word : Bytes) : Bytes :=
  let near := suggestions word
  utf8 "unknown command " ++ Quoted.encode word ++ utf8 " for \"lectic\"" ++
    (if near.isEmpty then []
      else utf8 "\n\nDid you mean this?\n" ++ near.flatMap fun c => utf8 ("\t" ++ c.name ++ "\n"))

/-- The command that a command line names, and the arguments for it. -/
def find (arguments : List Bytes) : Except Bytes (Option Command × List Bytes) :=
  match firstWord? arguments with
  | none => .ok (none, arguments)
  | some word =>
    match all.find? fun c => utf8 c.name == word with
    | some c => .ok (some c, without word arguments)
    | none => .error (unknownCommand word)

/-- Run a command between the start and the end of profiling. The file for the processor profile is made
    first, and the command is not run without it; the file for the memory profile is made last. -/
def profiled (i : Invocation) (a : Arguments) (c : Console) (body : Console → Progress) : Progress × Bytes :=
  let cpu := a.text cpuProfileFlag
  let started := if cpu.isEmpty then .ok c.files else c.files.create i.host.cwd cpu []
  match started with
  | .error f => (.failed c f.message, [])
  | .ok files =>
    let p := body { c with files }
    let memory := a.text memoryProfileFlag
    if memory.isEmpty then (p, [])
    else match p.console.files.create i.host.cwd memory [] with
      | .ok files => ({ p with console := { p.console with files } }, [])
      | .error f => (p, utf8 "profile: " ++ f.message ++ utf8 "\n")

/-- Run a command with its arguments read. The command that only groups others does nothing by itself, so
    it is not profiled either. -/
def execute (cmd : Command) (noColor : Bool) (i : Invocation) (a : Arguments) (c : Console) : Progress × Bytes :=
  if cmd == .completion then (⟨c, none⟩, [])
  else if cmd == .check && a.rest.isEmpty then
    (.failed c (utf8 "requires at least 1 arg(s), only received 0"), [])
  else
    profiled i a c fun c =>
      match cmd with
      | .serve => Serve.run i a c
      | .check => Check.run i a c
      | .version => Version.run noColor i a c
      | _ => ⟨c, none⟩

/-- The end of a command: its failure is reported, and after it what went wrong with profiling. -/
def finish (p : Progress) (late : Bytes) : Outcome :=
  match p.fault with
  | some m => ((p.console.failure m).warn late).outcome 1
  | none => (p.console.warn late).outcome 0

/-- A command line without a command: it can only ask for the version. -/
def executeBare (arguments : List Bytes) (c : Console) : Outcome :=
  match Arguments.parse (versionFlag :: commonFlags) arguments with
  | .error f => (c.failure f.message).outcome 1
  | .ok a =>
    if !a.isSet helpFlag && a.isSet versionFlag then
      (c.print (utf8 "lectic version " ++ Release.current.version ++ utf8 "\n")).outcome 0
    else c.outcome 0

/-- Run the program. Variables of the environment file count, except for the one that turns colours off
    for good. -/
def run (i : Invocation) : Outcome :=
  let noColor := (Discovery.nonEmpty? i.host.env "NO_COLOR").isSome
  let i := { i with host := EnvironmentFile.load i.host }
  let c : Console := { files := i.host.files }
  match find i.arguments with
  | .error m => ((c.failure m).warn (utf8 "Run 'lectic --help' for usage.\n")).outcome 1
  | .ok (none, arguments) => executeBare arguments c
  | .ok (some cmd, arguments) =>
    match Arguments.parse cmd.flags arguments with
    | .error f => (c.failure f.message).outcome 1
    | .ok a =>
      if a.isSet helpFlag then c.outcome 0
      else
        let (p, late) := cmd.execute noColor i a c
        finish p late

end Command

end Colloquy
