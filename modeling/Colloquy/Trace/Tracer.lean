import Colloquy.Trace.Event

/-! # Tracers

A tracer numbers the events that pass its level and keeps them until they are written. A span is an
operation between two events; one that is too fine for the level leaves no events and has no number.
-/

namespace Colloquy.Trace

/-- The level, the current time, how many events and spans were numbered, and the events that wait to be
    written, latest first. Counters of 64 bits give the same numbers to the first 2 ^ 64 - 1 events and spans; these
    have no bound. -/
structure Tracer where
  level : Level
  now : Moment := 0
  events : Nat := 0
  spans : Nat := 0
  waiting : List Event := []
  deriving Repr, DecidableEq

/-- An operation that has begun. The number of a span that leaves no events is zero. -/
structure Span where
  id : Nat
  parent : Nat
  scope : Scope
  name : Bytes
  started : Moment
  extra : List (Bytes × Bytes)
  deriving Repr, DecidableEq

/-- A span that leaves no events. -/
def Span.silent : Span := ⟨0, 0, ⟨0⟩, [], 0, []⟩

/-- Add to what the span's last event says. -/
def Span.withExtra (s : Span) (name value : Bytes) : Span :=
  { s with extra := (s.extra.filter fun x => x.1 != name) ++ [(name, value)] }

/-- What is handed down to the steps of an operation: the number of the span that they belong to, zero for none. -/
structure Context where
  current : Nat := 0
  deriving Repr, DecidableEq

/-- The context for what is done inside a span. -/
def Context.inside (s : Span) : Context := ⟨s.id⟩

namespace Tracer

def ofLevel (level : Level) : Tracer := { level }

/-- A tracer that tells nothing. -/
def off : Tracer := ofLevel .off

/-- Tell an event, if its scope passes the level or it is an error. -/
def emit (t : Tracer) (e : Event) : Tracer :=
  if t.level.isEnabled && (e.kind == .error || t.level.emits e.scope) then
    { t with events := t.events + 1, waiting := { e with time := t.now, seq := t.events + 1 } :: t.waiting }
  else t

/-- Begin a span below another one, or below none when `parent` is zero. -/
def start (t : Tracer) (scope : Scope) (name : Bytes) (parent : Nat) : Span × Tracer :=
  if t.level.emits scope then
    let id := t.spans + 1
    (⟨id, parent, scope, name, t.now, []⟩,
      { t with spans := id }.emit { kind := .spanBegin, scope, span := id, parent, name })
  else (Span.silent, t)

def finish (t : Tracer) (s : Span) (detail : Bytes) : Tracer :=
  if s.id == 0 then t
  else
    let elapsed := Duration.render (Duration.toMicroseconds (t.now - s.started).toNat)
    t.emit {
      kind := .spanEnd, scope := s.scope, span := s.id, parent := s.parent, name := s.name, detail
      extra := (s.withExtra (utf8 "dur") elapsed).extra }

def point (t : Tracer) (scope : Scope) (name detail : Bytes) : Tracer :=
  t.emit { kind := .point, scope, name, detail }

def failure (t : Tracer) (scope : Scope) (name detail : Bytes) : Tracer :=
  t.emit { kind := .error, scope, name, detail }

/-- Begin a span below the one that a context belongs to, with the context for what is done inside the span. -/
def startIn (t : Tracer) (c : Context) (scope : Scope) (name : Bytes) : Span × Context × Tracer :=
  let (s, t) := t.start scope name c.current
  (s, Context.inside s, t)

/-- The events that wait to be written, and the tracer without them. -/
def drain (t : Tracer) : List Event × Tracer := (t.waiting.reverse, { t with waiting := [] })

end Tracer

end Colloquy.Trace
