import Colloquy.Command.Flag
import Colloquy.Host.EnvironmentFile
import Colloquy.Model.Listing
import Colloquy.Trace.Tracer

/-! # Running a command

What a command is given and what it leaves behind. A command writes to two streams, may make files, and
either succeeds or fails with a message.
-/

namespace Colloquy

/-- What a command is given. -/
structure Invocation where
  arguments : List Bytes
  host : Host
  /-- The standard input. -/
  input : Bytes := []
  /-- Whether the standard output is a terminal. -/
  isTerminal : Bool := false
  now : Moment := 0
  /-- What the providers would reply, by provider. -/
  replies : Bytes → List ModelReply := fun _ => []

/-- What a command leaves behind. -/
structure Outcome where
  exit : Nat
  output : Bytes
  errors : Bytes
  files : FileTree

/-- What a command has written so far. -/
structure Console where
  files : FileTree
  output : Bytes := []
  errors : Bytes := []

namespace Console

def print (c : Console) (t : Bytes) : Console := { c with output := c.output ++ t }

def warn (c : Console) (t : Bytes) : Console := { c with errors := c.errors ++ t }

def failure (c : Console) (message : Bytes) : Console := c.warn (utf8 "Error: " ++ message ++ [Bytes.lf])

def outcome (c : Console) (exit : Nat) : Outcome := ⟨exit, c.output, c.errors, c.files⟩

end Console

/-- How a command went on: what it wrote, and the message if it failed. -/
structure Progress where
  console : Console
  fault : Option Bytes := none

namespace Progress

def failed (c : Console) (message : Bytes) : Progress := ⟨c, some message⟩

/-- Continue unless the command has failed. -/
def andThen (p : Progress) (next : Console → Progress) : Progress :=
  match p.fault with
  | some _ => p
  | none => next p.console

end Progress

/-! ## Flags of all commands -/

namespace Command

def colorFlag : Flag := .text "color" "auto"
def traceFlag : Flag := .text "trace" ""
def traceLevelFlag : Flag := .text "trace-level" "off"
def cpuProfileFlag : Flag := .text "cpuprofile" ""
def memoryProfileFlag : Flag := .text "memprofile" ""
def helpFlag : Flag := .truth "help" (some 'h')

def commonFlags : List Flag :=
  [colorFlag, traceFlag, traceLevelFlag, cpuProfileFlag, memoryProfileFlag, helpFlag]

/-- Whether output is coloured: as asked for, or else if it goes to a terminal and nothing forbids it. -/
def isColored (i : Invocation) (a : Arguments) : Bool :=
  let mode := a.text colorFlag
  if mode == utf8 "on" || mode == utf8 "always" then true
  else if mode == utf8 "off" || mode == utf8 "never" then false
  else (i.host.env.get? "NO_COLOR").isNone && i.isTerminal

/-- A trace that is being written: its tracer, its format and its path, which is empty for the standard
    error stream. -/
structure Tracing where
  tracer : Trace.Tracer
  format : Trace.Format := .text
  path : Bytes := []

def Tracing.none : Tracing := { tracer := Trace.Tracer.off }

/-- Start the trace that the flags ask for. A place to write without a level traces requests. -/
def startTrace (i : Invocation) (a : Arguments) (c : Console) : Except Bytes (Tracing × Console) := do
  let path := a.text traceFlag
  let level ← (Trace.Level.ofText (a.text traceLevelFlag)).mapError Trace.Level.Fault.message
  if level == .off && path.isEmpty then return (.none, c)
  let level := if level == .off then .request else level
  let tracer := { Trace.Tracer.ofLevel level with now := i.now }
  let format := Trace.Format.auto.forPath path
  if path.isEmpty || path == utf8 "-" then return ({ tracer, format }, c)
  match c.files.create i.host.cwd path [] with
  | .ok files => return ({ tracer, format, path }, { c with files })
  | .error f => .error (utf8 "failed to create tracer: failed to open trace output: " ++ f.message)

def Tracing.write (t : Tracing) (cwd : Bytes) (c : Console) : Console :=
  let lines := t.tracer.drain.1.flatMap (Trace.Event.line t.format)
  if t.path.isEmpty then c.warn lines
  else match c.files.create cwd t.path lines with
    | .ok files => { c with files }
    | .error _ => c

end Command

end Colloquy
