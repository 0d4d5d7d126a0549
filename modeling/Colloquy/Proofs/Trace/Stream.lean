import Colloquy.Trace.Tracer
import Mathlib.Data.List.Forall2
import Mathlib.Data.List.Nodup
import Mathlib.Data.List.Range

/-! # The stream of a trace

A span that is too fine for the level of a trace is never heard of: its first event is held back, it gets no number, and
so its last event is held back too and nothing that is done inside it names it. What is written then speaks of spans
that were written before only, whatever is done in between and however spans are mixed.
-/

namespace Colloquy.Trace

/-! ## What happens, and what of it passes a level -/

/-- What an event tells, apart from its time and from numbers. -/
structure Occurrence where
  kind : Kind
  scope : Scope
  name : Bytes
  detail : Bytes
  deriving DecidableEq

def Event.occurrence (e : Event) : Occurrence := ⟨e.kind, e.scope, e.name, e.detail⟩

/-- Errors pass every level but `off`, and other events pass if their scope does. -/
def Level.passes (l : Level) (o : Occurrence) : Bool := l.isEnabled && (o.kind == .error || l.emits o.scope)

/-- What is done with a tracer. Spans and contexts are told by how many were made before them. -/
inductive Operation
  /-- Time goes by. -/
  | wait (now : Moment)
  | start (scope : Scope) (name : Bytes) (parent : Nat)
  | startIn (context : Nat) (scope : Scope) (name : Bytes)
  /-- Make a context for what is done inside a span. -/
  | enter (span : Nat)
  | extra (span : Nat) (name value : Bytes)
  | finish (span : Nat) (detail : Bytes)
  | point (scope : Scope) (name detail : Bytes)
  /-- An operation has ended, and perhaps it has failed. -/
  | failure (scope : Scope) (name : Bytes) (detail : Option Bytes)

/-- The scope and the name of the span that an operation begins. -/
def Operation.begun? : Operation → Option (Scope × Bytes)
  | .start scope name _ => some (scope, name)
  | .startIn _ scope name => some (scope, name)
  | .wait _ | .enter _ | .extra _ _ _ | .finish _ _ | .point _ _ _ | .failure _ _ _ => none

/-- What happens in an operation, where the spans of these scopes and names were begun before. -/
def Operation.occurrence? (begun : List (Scope × Bytes)) : Operation → Option Occurrence
  | .start scope name _ => some ⟨.spanBegin, scope, name, []⟩
  | .startIn _ scope name => some ⟨.spanBegin, scope, name, []⟩
  | .finish i detail => begun[i]?.map fun span => ⟨.spanEnd, span.1, span.2, detail⟩
  | .point scope name detail => some ⟨.point, scope, name, detail⟩
  | .failure scope name detail => detail.map fun detail => ⟨.error, scope, name, detail⟩
  | .wait _ | .enter _ | .extra _ _ _ => none

/-- What happens in operations, one after the other. -/
def occurrences (begun : List (Scope × Bytes)) : List Operation → List Occurrence
  | [] => []
  | o :: later => (o.occurrence? begun).toList ++ occurrences (begun ++ o.begun?.toList) later

/-! ## Recordings -/

/-- The events that wait to be written, in their order. -/
def Tracer.written (t : Tracer) : List Event := t.drain.1

/-- A tracer with the spans and the contexts that were made with it; the first context belongs to no span. -/
structure Recording where
  tracer : Tracer
  spans : List Span := []
  contexts : List Context := [{}]

namespace Recording

def written (r : Recording) : List Event := r.tracer.written

def context (r : Recording) (i : Nat) : Context := r.contexts[i]?.getD {}

/-- A context for what is done inside the span; a span that was not made has no number. -/
def enter (r : Recording) (i : Nat) : Recording :=
  { r with contexts := r.contexts ++ [Context.inside (r.spans[i]?.getD .silent)] }

def step (r : Recording) : Operation → Recording
  | .wait now => { r with tracer := { r.tracer with now } }
  | .start scope name parent =>
    let (s, tracer) := r.tracer.start scope name parent
    { r with tracer, spans := r.spans ++ [s] }
  | .startIn i scope name =>
    let (s, c, tracer) := r.tracer.startIn (r.context i) scope name
    { tracer, spans := r.spans ++ [s], contexts := r.contexts ++ [c] }
  | .enter i => r.enter i
  | .extra i name value => { r with spans := r.spans.modify i fun s => s.withExtra name value }
  | .finish i detail =>
    match r.spans[i]? with
    | some s => { r with tracer := r.tracer.finish s detail }
    | none => r
  | .point scope name detail => { r with tracer := r.tracer.point scope name detail }
  | .failure scope name detail =>
    match detail with
    | some detail => { r with tracer := r.tracer.failure scope name detail }
    | none => r

def after (r : Recording) (operations : List Operation) : Recording := operations.foldl step r

end Recording

/-! ## Streams -/

/-- The event tells of the beginning of a span with this number and parent, of this scope and name. -/
structure Event.Begins (e : Event) (span parent : Nat) (scope : Scope) (name : Bytes) : Prop where
  kind : e.kind = .spanBegin
  span : e.span = span
  parent : e.parent = parent
  scope : e.scope = scope
  name : e.name = name

/-- A stream tells of the beginning of a span with this number. -/
def Tells (stream : List Event) (span : Nat) : Prop := ∃ e ∈ stream, e.kind = .spanBegin ∧ e.span = span

/-- Events are numbered without gaps, no two of them begin one span, and a span that ends was begun just so. -/
structure IsStream (first : Nat) (stream : List Event) : Prop where
  numbered : stream.map Event.seq = List.range' (first + 1) stream.length
  distinct : ((stream.filter (·.kind = .spanBegin)).map Event.span).Nodup
  closed : ∀ before last after, stream = before ++ last :: after → last.kind = .spanEnd →
    ∃ e ∈ before, e.Begins last.span last.parent last.scope last.name

variable {first : Nat} {stream : List Event} {level : Level} {e : Event}

theorem Tells.append {span : Nat} (tells : Tells stream span) (more : List Event) : Tells (stream ++ more) span := by
  obtain ⟨e, member, begins⟩ := tells
  exact ⟨e, List.mem_append_left more member, begins⟩

theorem IsStream.nil (first : Nat) : IsStream first [] :=
  ⟨rfl, List.nodup_nil, fun before last after split => by simp at split⟩

/-- One more event: it may begin a new span, or end one that was begun. -/
theorem IsStream.concat (whole : IsStream first stream) (next : e.seq = first + stream.length + 1)
    (begins : e.kind = .spanBegin → ¬ Tells stream e.span)
    (ends : e.kind = .spanEnd → ∃ b ∈ stream, b.Begins e.span e.parent e.scope e.name) :
    IsStream first (stream ++ [e]) := by
  refine ⟨?_, ?_, ?_⟩
  · rw [List.map_append, whole.numbered, List.length_append, List.length_singleton, List.range'_1_concat,
      List.map_singleton, next, Nat.add_right_comm]
  · rw [List.filter_append, List.map_append]
    by_cases kind : e.kind = .spanBegin
    · rw [List.filter_cons_of_pos (by simpa using kind), List.filter_nil, List.map_singleton]
      refine List.nodup_append.mpr ⟨whole.distinct, List.nodup_singleton _, ?_⟩
      intro span known other new same
      obtain rfl := List.mem_singleton.mp new
      obtain ⟨b, among, rfl⟩ := List.mem_map.mp known
      obtain ⟨member, begun⟩ := List.mem_filter.mp among
      exact begins kind ⟨b, member, by simpa using begun, same⟩
    · rw [List.filter_cons_of_neg (by simpa using kind), List.filter_nil, List.map_nil, List.append_nil]
      exact whole.distinct
  · intro before last after split kind
    cases after using List.reverseRecOn with
    | nil =>
        obtain ⟨rfl, single⟩ := List.append_inj' split rfl
        obtain rfl := List.singleton_inj.mp single
        exact ends kind
    | append_singleton after other =>
        rw [← List.cons_append, ← List.append_assoc] at split
        exact whole.closed before last after (List.append_inj' split rfl).1 kind

/-! ## Emitting -/

namespace Tracer

variable {t : Tracer} {scope : Scope} {name : Bytes}

/-- An event as it is written. -/
def stamp (t : Tracer) (e : Event) : Event := { e with time := t.now, seq := t.events + 1 }

theorem emit_of_passes (passes : t.level.passes e.occurrence = true) :
    t.emit e = { t with events := t.events + 1, waiting := t.stamp e :: t.waiting } :=
  if_pos passes

theorem emit_of_not_passes (held : t.level.passes e.occurrence = false) : t.emit e = t :=
  if_neg (by simpa [Level.passes, Event.occurrence] using held)

theorem written_emit (t : Tracer) (e : Event) :
    (t.emit e).written = t.written ++ if t.level.passes e.occurrence then [t.stamp e] else [] := by
  cases passes : t.level.passes e.occurrence with
  | false => simp [emit_of_not_passes passes]
  | true => simp [emit_of_passes passes, written, drain]

theorem told_emit (t : Tracer) (e : Event) :
    ∃ new, (t.emit e).written = t.written ++ new ∧
      new.map Event.occurrence = [e.occurrence].filter t.level.passes := by
  refine ⟨_, written_emit t e, ?_⟩
  cases passes : t.level.passes e.occurrence with
  | false =>
      rw [List.filter_cons_of_neg (by simp [passes])]
      rfl
  | true =>
      rw [List.filter_cons_of_pos passes]
      rfl

end Tracer

/-- Only errors pass a level that holds their scope back. -/
theorem Level.passes_eq_emits {o : Occurrence} (harmless : o.kind ≠ .error) : level.passes o = level.emits o.scope := by
  rw [Level.passes, beq_false_of_ne harmless, Bool.false_or]
  cases level <;> rfl

theorem Tracer.start_eq (t : Tracer) (scope : Scope) (name : Bytes) (parent : Nat) :
    t.start scope name parent =
      if t.level.emits scope then
        (⟨t.spans + 1, parent, scope, name, t.now, []⟩,
          { t with
            spans := t.spans + 1
            events := t.events + 1
            waiting := t.stamp { kind := .spanBegin, scope, span := t.spans + 1, parent, name } :: t.waiting })
      else (.silent, t) := by
  unfold start
  split
  · rename_i emits
    have passes : t.level.passes (Event.occurrence { kind := .spanBegin, scope, span := t.spans + 1, parent, name }) =
        true := (Level.passes_eq_emits (show Kind.spanBegin ≠ Kind.error by decide)).trans emits
    exact congrArg (Prod.mk _) (emit_of_passes (t := { t with spans := t.spans + 1 }) passes)
  · rfl

/-! ## What a recording keeps -/

/-- The span is the one that was begun with this scope and name: it is silent if the level holds it back, and else a
stream tells of its beginning. -/
structure Tracks (level : Level) (stream : List Event) (begun : Scope × Bytes) (s : Span) : Prop where
  silent : level.emits begun.1 = false → s.id = 0
  heard : level.emits begun.1 = true →
    s.id ≠ 0 ∧ s.scope = begun.1 ∧ s.name = begun.2 ∧ ∃ e ∈ stream, e.Begins s.id s.parent s.scope s.name

theorem Tracks.append {begun : Scope × Bytes} {s : Span} (tracks : Tracks level stream begun s) (more : List Event) :
    Tracks level (stream ++ more) begun s := by
  refine ⟨tracks.silent, fun emits => ?_⟩
  obtain ⟨some, scope, name, e, member, begins⟩ := tracks.heard emits
  exact ⟨some, scope, name, e, List.mem_append_left more member, begins⟩

theorem Tracks.tells {begun : Scope × Bytes} {s : Span} (tracks : Tracks level stream begun s) :
    s.id = 0 ∨ Tells stream s.id := by
  cases emits : level.emits begun.1 with
  | false => exact .inl (tracks.silent emits)
  | true =>
      obtain ⟨-, -, -, e, member, begins⟩ := tracks.heard emits
      exact .inr ⟨e, member, begins.kind, begins.span⟩

/-- The state of a recording with the spans that were begun: the numbers go on from the stream, each span is silent or
begun in the stream, and so is each span that a context belongs to. -/
structure Recording.Sound (level : Level) (first : Nat) (begun : List (Scope × Bytes)) (r : Recording) : Prop where
  atLevel : r.tracer.level = level
  stream : IsStream first r.written
  events : r.tracer.events = first + r.written.length
  spans : ∀ span, Tells r.written span → span ≤ r.tracer.spans
  tracked : List.Forall₂ (Tracks level r.written) begun r.spans
  contexts : ∀ c ∈ r.contexts, c.current = 0 ∨ Tells r.written c.current

theorem forall₂_modify {α β : Type} {R : α → β → Prop} {f : β → β} {as : List α} {bs : List β}
    (keeps : ∀ a b, R a b → R a (f b)) (related : List.Forall₂ R as bs) (i : Nat) :
    List.Forall₂ R as (bs.modify i f) := by
  induction related generalizing i with
  | nil => simp
  | cons head tail ih =>
      cases i with
      | zero => exact .cons (keeps _ _ head) tail
      | succ i => exact .cons head (ih i)

theorem forall₂_getElem? {α β : Type} {R : α → β → Prop} {as : List α} {bs : List β} (related : List.Forall₂ R as bs)
    (i : Nat) : (∃ a b, as[i]? = some a ∧ bs[i]? = some b ∧ R a b) ∨ as[i]? = none ∧ bs[i]? = none := by
  induction related generalizing i with
  | nil => exact .inr ⟨rfl, rfl⟩
  | cons head tail ih =>
      cases i with
      | zero => exact .inl ⟨_, _, rfl, rfl, head⟩
      | succ i => exact ih i

namespace Recording

variable {begun : List (Scope × Bytes)} {r : Recording}

theorem Sound.context (sound : r.Sound level first begun) (i : Nat) :
    (r.context i).current = 0 ∨ Tells r.written (r.context i).current := by
  unfold Recording.context
  cases found : r.contexts[i]? with
  | none => exact .inl rfl
  | some c => exact sound.contexts c (List.mem_of_getElem? found)

/-- One more event, told by a tracer that goes on with the numbers. -/
theorem Sound.told (sound : r.Sound level first begun) {t : Tracer} (same : t.level = r.tracer.level)
    (written : t.written = r.written ++ [e]) (next : e.seq = r.tracer.events + 1)
    (events : t.events = r.tracer.events + 1) (spans : r.tracer.spans ≤ t.spans)
    (begins : e.kind = .spanBegin → r.tracer.spans < e.span ∧ e.span ≤ t.spans)
    (ends : e.kind = .spanEnd → ∃ b ∈ r.written, b.Begins e.span e.parent e.scope e.name) :
    Sound level first begun { r with tracer := t } := by
  have grown : Recording.written { r with tracer := t } = r.written ++ [e] := written
  refine ⟨same.trans sound.atLevel, ?_, ?_, ?_, ?_, ?_⟩
  · rw [grown]
    refine sound.stream.concat (by rw [next, sound.events]) ?_ ends
    intro kind known
    exact Nat.not_le_of_lt (begins kind).1 (sound.spans e.span known)
  · rw [grown, List.length_append, List.length_singleton]
    exact events.trans (congrArg (· + 1) sound.events)
  · rw [grown]
    rintro span ⟨b, member, kind, rfl⟩
    cases List.mem_append.mp member with
    | inl earlier => exact Nat.le_trans (sound.spans _ ⟨b, earlier, kind, rfl⟩) spans
    | inr last =>
        obtain rfl := List.mem_singleton.mp last
        exact (begins kind).2
  · rw [grown]
    exact sound.tracked.imp fun _ _ tracks => tracks.append [e]
  · rw [grown]
    exact fun c member => (sound.contexts c member).imp_right fun tells => tells.append [e]

/-- An event that begins no span is emitted, or held back. -/
theorem Sound.emit (sound : r.Sound level first begun) (other : e.kind ≠ .spanBegin)
    (ends : e.kind = .spanEnd → ∃ b ∈ r.written, b.Begins e.span e.parent e.scope e.name) :
    Sound level first begun { r with tracer := r.tracer.emit e } := by
  cases passes : r.tracer.level.passes e.occurrence with
  | false =>
      rw [Tracer.emit_of_not_passes passes]
      exact sound
  | true =>
      have written := Tracer.written_emit r.tracer e
      rw [if_pos passes] at written
      rw [Tracer.emit_of_passes passes] at written ⊢
      exact sound.told rfl written rfl rfl (Nat.le_refl _) (fun kind => absurd kind other) ends

/-- One more span, which is silent or begun in the stream. -/
theorem Sound.track (sound : r.Sound level first begun) {b : Scope × Bytes} {s : Span}
    (tracks : Tracks level r.written b s) : Sound level first (begun ++ [b]) { r with spans := r.spans ++ [s] } :=
  { sound with tracked := List.rel_append sound.tracked (.cons tracks .nil) }

/-- One more context, which belongs to no span or to one that is begun in the stream. -/
theorem Sound.enter (sound : r.Sound level first begun) {c : Context} (known : c.current = 0 ∨ Tells r.written c.current) :
    Sound level first begun { r with contexts := r.contexts ++ [c] } := by
  refine { sound with contexts := fun other member => ?_ }
  cases List.mem_append.mp member with
  | inl before => exact sound.contexts other before
  | inr last => exact List.mem_singleton.mp last ▸ known

/-- A span is begun: it gets the next number and is told of, or it is silent. -/
theorem Sound.start (sound : r.Sound level first begun) (scope : Scope) (name : Bytes) (parent : Nat) :
    let (s, tracer) := r.tracer.start scope name parent
    Sound level first begun { r with tracer } ∧ Tracks level tracer.written (scope, name) s ∧
      ∃ new, tracer.written = r.written ++ new ∧ (∀ e ∈ new, e.parent = parent) ∧
        new.map Event.occurrence = [⟨.spanBegin, scope, name, []⟩].filter level.passes := by
  obtain rfl := sound.atLevel
  have passes : r.tracer.level.passes ⟨.spanBegin, scope, name, []⟩ = r.tracer.level.emits scope :=
    Level.passes_eq_emits (show Kind.spanBegin ≠ Kind.error by decide)
  rw [Tracer.start_eq]
  cases emits : r.tracer.level.emits scope with
  | false =>
      rw [if_neg Bool.false_ne_true]
      refine ⟨sound, ⟨fun _ => rfl, fun heard => ?_⟩, [], (List.append_nil _).symm, List.forall_mem_nil _, ?_⟩
      · exact absurd (emits.symm.trans heard) Bool.false_ne_true
      · rw [List.filter_cons_of_neg (by simp [passes, emits])]
        rfl
  | true =>
      rw [if_pos rfl]
      let told : Event := r.tracer.stamp { kind := .spanBegin, scope, span := r.tracer.spans + 1, parent, name }
      let t : Tracer := { r.tracer with
        spans := r.tracer.spans + 1
        events := r.tracer.events + 1
        waiting := told :: r.tracer.waiting }
      have written : t.written = r.written ++ [told] := List.reverse_cons
      have fresh : r.tracer.spans < told.span ∧ told.span ≤ t.spans := ⟨Nat.lt_succ_self _, Nat.le_refl _⟩
      have begins : told.kind ≠ .spanEnd := show Kind.spanBegin ≠ Kind.spanEnd by decide
      refine ⟨sound.told (t := t) rfl written rfl rfl (Nat.le_succ _) (fun _ => fresh) fun kind => absurd kind begins,
        ⟨fun held => ?_, fun _ => ⟨Nat.succ_ne_zero _, rfl, rfl, told, ?_, rfl, rfl, rfl, rfl, rfl⟩⟩, [told],
        written, ?_, ?_⟩
      · exact absurd (emits.symm.trans held) (by decide)
      · rw [written]
        exact List.mem_append_right _ (List.mem_singleton_self told)
      · intro e only
        rw [List.mem_singleton.mp only]
        rfl
      · rw [List.filter_cons_of_pos (passes.trans emits)]
        rfl

theorem Sound.startIn (sound : r.Sound level first begun) (i : Nat) (scope : Scope) (name : Bytes) :
    Sound level first (begun ++ [(scope, name)]) (r.step (.startIn i scope name)) ∧
      ∃ new, (r.step (.startIn i scope name)).written = r.written ++ new ∧
        (∀ e ∈ new, e.parent = (r.context i).current) ∧
        new.map Event.occurrence = [⟨.spanBegin, scope, name, []⟩].filter level.passes := by
  obtain ⟨started, tracks, told⟩ := sound.start scope name (r.context i).current
  exact ⟨(started.track tracks).enter tracks.tells, told⟩

/-- The first event of a span that is heard of has been written, so its last one is let through; a silent one has none. -/
theorem Sound.finish (sound : r.Sound level first begun) {b : Scope × Bytes} {s : Span}
    (tracks : Tracks level r.written b s) (detail : Bytes) :
    Sound level first begun { r with tracer := r.tracer.finish s detail } ∧
      ∃ new, (r.tracer.finish s detail).written = r.written ++ new ∧
        new.map Event.occurrence = [⟨.spanEnd, b.1, b.2, detail⟩].filter level.passes := by
  obtain rfl := sound.atLevel
  unfold Tracer.finish
  cases emits : r.tracer.level.emits b.1 with
  | false =>
      have held : r.tracer.level.passes ⟨.spanEnd, b.1, b.2, detail⟩ = false :=
        (Level.passes_eq_emits (show Kind.spanEnd ≠ Kind.error by decide)).trans emits
      rw [if_pos (by simpa using tracks.silent emits)]
      refine ⟨sound, [], (List.append_nil _).symm, ?_⟩
      rw [List.filter_cons_of_neg (by simp [held])]
      rfl
  | true =>
      obtain ⟨some, scope, name, opened⟩ := tracks.heard emits
      rw [if_neg (by simpa using some), ← scope, ← name]
      exact ⟨sound.emit (show Kind.spanEnd ≠ Kind.spanBegin by decide) fun _ => opened, Tracer.told_emit _ _⟩

theorem Sound.extra (sound : r.Sound level first begun) (i : Nat) (name value : Bytes) :
    Sound level first begun { r with spans := r.spans.modify i fun s => s.withExtra name value } :=
  { sound with tracked := forall₂_modify (fun _ _ tracks => ⟨tracks.silent, tracks.heard⟩) sound.tracked i }

/-- One operation keeps the state sound and writes what happens in it, as far as it passes. -/
theorem Sound.step (sound : r.Sound level first begun) (o : Operation) :
    Sound level first (begun ++ o.begun?.toList) (r.step o) ∧
      ∃ new, (r.step o).written = r.written ++ new ∧
        new.map Event.occurrence = (o.occurrence? begun).toList.filter level.passes := by
  have unheard : ∃ new, r.written = r.written ++ new ∧ new.map Event.occurrence = [].filter level.passes :=
    ⟨[], (List.append_nil _).symm, rfl⟩
  cases o with
  | start scope name parent =>
      obtain ⟨started, tracks, new, written, -, told⟩ := sound.start scope name parent
      exact ⟨started.track tracks, new, written, told⟩
  | startIn i scope name =>
      obtain ⟨started, new, written, -, told⟩ := sound.startIn i scope name
      exact ⟨started, new, written, told⟩
  | wait now =>
      rw [Operation.begun?, Option.toList_none, List.append_nil]
      exact ⟨{ sound with }, unheard⟩
  | enter i =>
      rw [Operation.begun?, Option.toList_none, List.append_nil]
      refine ⟨sound.enter ?_, unheard⟩
      obtain ⟨b, s, -, found, tracks⟩ | ⟨-, none⟩ := forall₂_getElem? sound.tracked i
      · rw [found]
        exact tracks.tells
      · rw [none]
        exact .inl rfl
  | extra i name value =>
      rw [Operation.begun?, Option.toList_none, List.append_nil]
      exact ⟨sound.extra i name value, unheard⟩
  | finish i detail =>
      rw [Operation.begun?, Option.toList_none, List.append_nil, Operation.occurrence?, Recording.step]
      obtain ⟨b, s, known, found, tracks⟩ | ⟨unknown, none⟩ := forall₂_getElem? sound.tracked i
      · rw [known, found]
        exact sound.finish tracks detail
      · rw [unknown, none]
        exact ⟨sound, unheard⟩
  | point scope name detail =>
      rw [Operation.begun?, Option.toList_none, List.append_nil, ← sound.atLevel]
      exact ⟨sound.atLevel ▸ sound.emit (show Kind.point ≠ Kind.spanBegin by decide) fun kind =>
        absurd kind (show Kind.point ≠ Kind.spanEnd by decide), Tracer.told_emit _ _⟩
  | failure scope name detail =>
      rw [Operation.begun?, Option.toList_none, List.append_nil, ← sound.atLevel]
      cases detail with
      | none => exact ⟨sound.atLevel ▸ sound, sound.atLevel ▸ unheard⟩
      | some detail =>
          exact ⟨sound.atLevel ▸ sound.emit (show Kind.error ≠ Kind.spanBegin by decide) fun kind =>
            absurd kind (show Kind.error ≠ Kind.spanEnd by decide), Tracer.told_emit _ _⟩

theorem Sound.blank (level : Level) (now : Moment) (events spans : Nat) :
    Sound level events [] { tracer := { level, now, events, spans } } := by
  refine ⟨rfl, .nil events, rfl, ?_, .nil, ?_⟩
  · rintro span ⟨e, member, -⟩
    cases member
  · intro c member
    obtain rfl := List.mem_singleton.mp member
    exact .inl rfl

/-- Operations keep the state sound and write what happens in them, as far as it passes. -/
theorem Sound.after (sound : r.Sound level first begun) (operations : List Operation) :
    (∃ more, Sound level first (begun ++ more) (r.after operations)) ∧
      ∃ new, (r.after operations).written = r.written ++ new ∧
        new.map Event.occurrence = (occurrences begun operations).filter level.passes := by
  induction operations generalizing r begun with
  | nil => exact ⟨⟨[], (List.append_nil begun).symm ▸ sound⟩, [], (List.append_nil _).symm, rfl⟩
  | cons o operations ih =>
      obtain ⟨stepped, now, written, told⟩ := sound.step o
      obtain ⟨⟨more, sound⟩, later, continued, rest⟩ := ih stepped
      refine ⟨⟨o.begun?.toList ++ more, List.append_assoc begun _ _ ▸ sound⟩, now ++ later, ?_, ?_⟩
      · rw [← List.append_assoc, ← written]
        exact continued
      · rw [List.map_append, told, rest, occurrences, List.filter_append]

theorem after_append (r : Recording) (before later : List Operation) :
    r.after (before ++ later) = (r.after before).after later :=
  List.foldl_append

/-- What one tracer writes in any operations, spans that are ended again among them: the errors, unless nothing is told,
and all else whose scope passes, in the order in which it happens. The events are numbered without gaps, spans that
begin have different numbers, and a span that ends was begun before with the same number and parent, scope and name. A
span that is begun in a context has the context's span for its parent, and if that is one, its beginning was written
before. -/
theorem stream_well_formed (level : Level) (now : Moment) (events spans : Nat) (operations : List Operation) :
    let blank : Recording := { tracer := { level, now, events, spans } }
    let stream := (blank.after operations).written
    stream.map Event.occurrence = (occurrences [] operations).filter level.passes ∧
    IsStream events stream ∧
    ∀ before i scope name later, operations = before ++ .startIn i scope name :: later →
      let earlier := blank.after before
      let parent := (earlier.context i).current
      (parent ≠ 0 → Tells earlier.written parent) ∧
      ∃ new, (earlier.step (.startIn i scope name)).written = earlier.written ++ new ∧
        earlier.written ++ new <+: stream ∧ ∀ e ∈ new, e.parent = parent := by
  intro blank stream
  have start : blank.Sound level events [] := .blank level now events spans
  obtain ⟨⟨_, sound⟩, new, written, told⟩ := start.after operations
  obtain rfl : stream = new := written
  refine ⟨told, sound.stream, ?_⟩
  rintro before i scope name later rfl earlier parent
  obtain ⟨⟨_, known⟩, -⟩ := start.after before
  obtain ⟨stepped, new, written, parents, -⟩ := known.startIn i scope name
  obtain ⟨-, rest, continued, -⟩ := stepped.after later
  refine ⟨(known.context i).resolve_left, new, written, ?_, parents⟩
  rw [← written]
  have whole : stream = ((earlier.step (.startIn i scope name)).after later).written :=
    congrArg Recording.written (after_append blank before _)
  exact whole ▸ ⟨rest, continued.symm⟩

/-- Spans of every scope, one inside another, an error in a silent one, and one that is begun in a context. -/
theorem stream_well_formed_mixed :
    let before : List Operation := [.startIn 0 .request (utf8 "outer"), .start .external (utf8 "read") 1]
    let later : List Operation := [.startIn 2 .external (utf8 "io"), .failure .external (utf8 "io") (some (utf8 "no")),
      .finish 3 [], .finish 2 [], .finish 0 []]
    let operations := before ++ .startIn 1 .feature (utf8 "inner") :: later
    let blank : Recording := { tracer := { level := .detail } }
    let parent := ((blank.after before).context 1).current
    parent ≠ 0 ∧ Tells (blank.after before).written parent ∧
      (blank.after operations).written.map (fun e => (e.seq, e.span, e.parent)) =
        [(1, 1, 0), (2, 2, 1), (3, 0, 0), (4, 2, 1), (5, 1, 0)] ∧
      IsStream 0 (blank.after operations).written := by
  intro before later operations blank parent
  have some : parent ≠ 0 := by decide
  obtain ⟨-, stream, begun⟩ := stream_well_formed .detail 0 0 0 operations
  exact ⟨some, (begun before 1 .feature (utf8 "inner") later rfl).1 some, by decide, stream⟩

end Recording

end Colloquy.Trace
