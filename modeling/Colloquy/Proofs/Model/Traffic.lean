import Colloquy.Model.Registry
import Colloquy.Proofs.Config.Merge
import Colloquy.Proofs.Text.Bytes

/-! # Calls for lists

Several callers ask for lists at once. A call takes its steps one by one, and between any two of them anything may
happen to the registry. At most one call for a provider is in flight; a call that comes upon it waits, and shares its
result. Every step says what becomes of the entries, and so the parts of an entry fit together whatever the order of
the steps is, and a list that is known stays known.
-/

namespace Colloquy

/-! ## Names

A provider's names are taken in one by one. What comes of it is what is to be listed, in order and as a set.
-/

namespace Registry

/-- Names in strictly increasing order, none of them empty. -/
structure Tidy (names : List Bytes) : Prop where
  increasing : names.Pairwise (· < ·)
  named : [] ∉ names

/-- The names that are to be listed: none is empty, none is listed twice, and they are in byte order. -/
def listed (names : List Bytes) : List Bytes :=
  Bytes.sorted (names.filter fun n => !n.isEmpty).eraseDups

theorem tidy_nil : Tidy [] := ⟨.nil, by simp⟩

theorem tidy_listed (names : List Bytes) : Tidy (listed names) where
  increasing := Bytes.pairwise_sorted (Spec.nodup_eraseDups _)
  named := by simp [listed, Bytes.mem_sorted]

end Registry

namespace ModelEntry

/-- Names that are new are put behind those taken in before. -/
theorem names_foldl_add (names : List Bytes) (e : ModelEntry) :
    (names.foldl add e).names =
      e.names ++ (names.filter fun n => !(e.set.contains n || n.isEmpty)).eraseDups := by
  induction names generalizing e with
  | nil => simp
  | cons n names ih =>
      rw [List.foldl_cons, ih, add]
      split
      · rename_i skipped
        rw [List.filter_cons_of_neg (by rw [skipped]; simp)]
      · rename_i new
        rw [List.filter_cons_of_pos (by simpa using new), List.eraseDups_cons, List.filter_filter, List.append_assoc,
          List.singleton_append]
        -- What equals the name taken in is in the set from now on.
        congr 3
        refine List.filter_congr fun other _ => ?_
        by_cases same : other = n <;> simp [same]

theorem mem_set_foldl_add {names : List Bytes} {e : ModelEntry} {name : Bytes} :
    name ∈ (names.foldl add e).set ↔ name ∈ e.set ∨ (name ∈ names ∧ name ≠ []) := by
  induction names generalizing e with
  | nil => simp
  | cons n names ih =>
      rw [List.foldl_cons, ih, add]
      split
      · rename_i skipped
        rw [Bool.or_eq_true, List.contains_iff_mem, List.isEmpty_iff] at skipped
        have other : name = n → name ≠ [] → name ∈ e.set := by
          rintro rfl named
          exact skipped.resolve_right named
        grind
      · rename_i new
        have named : n ≠ [] := by
          rintro rfl
          simp at new
        grind

theorem state_foldl_add (names : List Bytes) (e : ModelEntry) : (names.foldl add e).state = e.state := by
  induction names generalizing e with
  | nil => rfl
  | cons n names ih =>
      rw [List.foldl_cons, ih, add]
      split <;> rfl

/-- An entry has the names that are to be listed, and is loaded if there are any. -/
theorem ofNames_eq (names : List Bytes) :
    ofNames names =
      { state := if Registry.listed names = [] then .empty else .loaded
        names := Registry.listed names
        set := (names.foldl add { state := .empty }).set } := by
  have taken : (names.foldl add { state := .empty }).names = (names.filter fun n => !n.isEmpty).eraseDups := by
    simp [names_foldl_add]
  have state := state_foldl_add names { state := .empty }
  unfold ofNames
  dsimp only
  generalize names.foldl add { state := .empty } = e at taken state
  rw [Registry.listed, ← taken]
  split
  · rename_i none
    rw [if_pos (Bytes.sorted_eq_nil_iff.mpr (List.isEmpty_iff.mp none)), state]
  · rename_i some
    rw [if_neg (mt Bytes.sorted_eq_nil_iff.mp (mt List.isEmpty_iff.mpr some))]

theorem names_ofNames (names : List Bytes) : (ofNames names).names = Registry.listed names := by
  rw [ofNames_eq]

theorem state_ofNames (names : List Bytes) :
    (ofNames names).state = if Registry.listed names = [] then .empty else .loaded := by
  rw [ofNames_eq]

theorem mem_set_ofNames {names : List Bytes} {name : Bytes} :
    name ∈ (ofNames names).set ↔ name ∈ Registry.listed names := by
  rw [ofNames_eq, mem_set_foldl_add, Registry.listed, Bytes.mem_sorted, List.mem_eraseDups, List.mem_filter]
  simp

/-- An entry's state, names and set fit together. -/
structure Consistent (e : ModelEntry) : Prop where
  loaded : e.state = .loaded ↔ e.names ≠ []
  tidy : Registry.Tidy e.names
  set : ∀ name, name ∈ e.set ↔ name ∈ e.names

theorem consistent_loading : Consistent { state := .loading } := ⟨by simp, Registry.tidy_nil, by simp⟩

theorem consistent_ofNames (names : List Bytes) : Consistent (ofNames names) where
  loaded := by
    rw [state_ofNames, names_ofNames]
    split <;> simp [*]
  tidy := names_ofNames names ▸ Registry.tidy_listed names
  set := fun name => by rw [mem_set_ofNames, names_ofNames]

end ModelEntry

/-! ## What a registry knows

Every operation concerns one provider, and says what becomes of its entry: it is marked as loading, stored, or
removed. What a registry answers about a provider is read off its entry.
-/

namespace Registry

theorem held?_seed (r : Registry) (provider : Bytes) (names : List Bytes) (p : Bytes) :
    (r.seed provider names).held? p = if provider = p then some (.ofNames names) else r.held? p :=
  Table.get?_set ..

theorem held?_begin (r : Registry) (provider p : Bytes) :
    (r.begin provider).held? p =
      if provider = p ∧ r.state p = .absent then some { state := .loading } else r.held? p := by
  unfold begin
  split
  · rename_i absent
    refine (Table.get?_set ..).trans (if_ctx_congr ?_ (fun _ => rfl) fun _ => rfl)
    exact ⟨fun same => ⟨same, same ▸ absent⟩, And.left⟩
  · rename_i present
    rw [if_neg]
    rintro ⟨rfl, absent⟩
    exact present absent

theorem held?_finish_error (r : Registry) (provider cause p : Bytes) :
    (r.finish provider (.error cause)).held? p =
      if provider = p ∧ r.state p = .loading then none else r.held? p := by
  rw [finish]
  split
  · rename_i loading
    refine (Table.get?_erase ..).trans (if_ctx_congr ?_ (fun _ => rfl) fun _ => rfl)
    exact ⟨fun same => ⟨same, same ▸ loading⟩, And.left⟩
  · rename_i other
    rw [if_neg]
    rintro ⟨rfl, loading⟩
    exact other loading

@[simp]
theorem state_seed (r : Registry) (provider : Bytes) (names : List Bytes) (p : Bytes) :
    (r.seed provider names).state p = if provider = p then (ModelEntry.ofNames names).state else r.state p := by
  rw [state, held?_seed]
  split <;> rfl

@[simp]
theorem state_begin (r : Registry) (provider p : Bytes) :
    (r.begin provider).state p = if provider = p ∧ r.state p = .absent then .loading else r.state p := by
  rw [state, held?_begin]
  split <;> rfl

@[simp]
theorem state_finish_error (r : Registry) (provider cause p : Bytes) :
    (r.finish provider (.error cause)).state p =
      if provider = p ∧ r.state p = .loading then .absent else r.state p := by
  rw [state, held?_finish_error]
  split <;> rfl

@[simp]
theorem canFetch_begin (r : Registry) (provider p : Bytes) : (r.begin provider).canFetch p = r.canFetch p := by
  unfold begin
  split <;> rfl

@[simp]
theorem canFetch_finish (r : Registry) (provider : Bytes) (reply : Except Bytes (List Bytes)) (p : Bytes) :
    (r.finish provider reply).canFetch p = r.canFetch p := by
  cases reply with
  | ok names => rfl
  | error cause =>
      rw [finish]
      split <;> rfl

/-- The list of a provider is known; there may be nothing in it. -/
def IsKnown (r : Registry) (provider : Bytes) : Prop := r.state provider = .loaded ∨ r.state provider = .empty

theorem IsKnown.state_ne_loading {r : Registry} {provider : Bytes} (known : r.IsKnown provider) :
    r.state provider ≠ .loading := by
  intro loading
  simp [IsKnown, loading] at known

theorem isKnown_seed (r : Registry) (provider : Bytes) (names : List Bytes) :
    (r.seed provider names).IsKnown provider := by
  rw [IsKnown, state_seed, if_pos rfl, ModelEntry.state_ofNames]
  split <;> simp

/-- No mark is left when a fetch ends, whatever the reply is. -/
theorem state_finish_ne_loading (r : Registry) (provider : Bytes) (reply : Except Bytes (List Bytes)) :
    (r.finish provider reply).state provider ≠ .loading := by
  cases reply with
  | ok names => exact (r.isKnown_seed provider names).state_ne_loading
  | error cause =>
      rw [state_finish_error]
      split
      · simp
      · rename_i unmarked
        exact fun loading => unmarked ⟨rfl, loading⟩

theorem ensure_eq_true_iff {r : Registry} {provider : Bytes} :
    (r.ensure provider).1 = true ↔ r.canFetch provider = true ∧ r.state provider = .absent := by
  unfold ensure
  split
  · rename_i started
    simpa using started
  · rename_i refused
    simpa using refused

theorem ensure_started {r : Registry} {provider : Bytes} (absent : r.state provider = .absent) :
    r.mark provider = r.begin provider :=
  (if_pos absent).symm

/-! ## Entries that fit together -/

/-- The parts of every entry fit together. -/
def Consistent (r : Registry) : Prop := ∀ p e, r.held? p = some e → e.Consistent

section

variable {r : Registry} {provider : Bytes}

theorem Consistent.loaded (consistent : r.Consistent) : r.state provider = .loaded ↔ r.names provider ≠ [] := by
  unfold state Registry.names
  cases known : r.held? provider with
  | none => simp
  | some e => exact (consistent provider e known).loaded

theorem Consistent.tidy (consistent : r.Consistent) : Tidy (r.names provider) := by
  unfold Registry.names
  cases known : r.held? provider with
  | none => exact tidy_nil
  | some e => exact (consistent provider e known).tidy

/-- Whether a model is listed is told exactly if there are models. -/
theorem Consistent.has? (consistent : r.Consistent) {model : Bytes} {found : Bool} :
    r.has? provider model = some found ↔ r.state provider = .loaded ∧ (found = true ↔ model ∈ r.names provider) := by
  unfold Registry.has? state Registry.names
  cases known : r.held? provider with
  | none => simp
  | some e =>
      simp only [Option.map_some, Option.getD_some]
      rw [← (consistent provider e known).set, ← List.contains_iff_mem]
      split
      · rename_i loaded
        simp only [loaded, true_and, Option.some.injEq]
        rw [eq_comm, Bool.eq_iff_iff]
      · rename_i other
        simp [other]

theorem Consistent.loading (consistent : r.Consistent) (loading : r.state provider = .loading) :
    r.names provider = [] := by
  by_contra named
  rw [consistent.loaded.mpr named] at loading
  cases loading

end

end Registry

/-! ## Calls -/

/-- How far a call for a list has come. -/
inductive Stage where
  /-- It has not looked yet whether another call is in flight. -/
  | made
  /-- It is in flight, and is about to mark the list. -/
  | entered
  /-- It waits for the provider. -/
  | asked
  | told (reply : Except Bytes (List Bytes))
  | stored
  /-- It has its result, and is still in flight. -/
  | settled (result : Except FetchFault (List Bytes))
  /-- It waits for another call, given by its number. -/
  | joined (leader : Nat)
  | ended (result : Except FetchFault (List Bytes))
  deriving Repr, DecidableEq

namespace Stage

def isFlying : Stage → Bool
  | .entered | .asked | .told _ | .stored | .settled _ => true
  | _ => false

/-- It may have yet to store a list, or to give up a mark. -/
def isPending : Stage → Bool
  | .made | .entered | .asked | .told _ => true
  | _ => false

def result? : Stage → Option (Except FetchFault (List Bytes))
  | .ended result => some result
  | _ => none

end Stage

structure Call where
  provider : Bytes
  stage : Stage
  deriving Repr, DecidableEq

/-- A registry with the calls made so far, which are numbered in that order. -/
structure Traffic where
  registry : Registry
  calls : List Call := []
  deriving Repr, DecidableEq

/-- What may happen. Questions about lists are left out: they change nothing. -/
inductive Move where
  | seed (provider : Bytes) (names : List Bytes)
  | ensure (provider : Bytes)
  | fetch (provider : Bytes)
  /-- The provider replies to a call. -/
  | reply (i : Nat) (reply : Except Bytes (List Bytes))
  /-- A call takes its next step. -/
  | step (i : Nat)
  deriving Repr, DecidableEq

namespace Traffic

def start (fetchable : List Bytes) : Traffic := { registry := .empty fetchable }

/-- The call in flight for a provider. -/
def leader? (x : Traffic) (provider : Bytes) : Option Nat :=
  x.calls.findIdx? fun c => c.provider == provider && c.stage.isFlying

/-- What a call's next step makes of the registry, and the stage that it leads to. -/
def proceed (x : Traffic) (c : Call) : Registry × Stage :=
  match c.stage with
  | .made => (x.registry, ((x.leader? c.provider).map .joined).getD .entered)
  | .entered => (x.registry.begin c.provider, .asked)
  | .told (.ok names) => (x.registry.finish c.provider (.ok names), .stored)
  | .told (.error cause) =>
    (x.registry.finish c.provider (.error cause), .settled (.error (.failed c.provider cause)))
  | .stored => (x.registry, .settled (.ok (x.registry.names c.provider)))
  | .settled result => (x.registry, .ended result)
  | .joined i => (x.registry, ((x.calls[i]?.bind (·.stage.result?)).map .ended).getD (.joined i))
  | .asked => (x.registry, .asked)
  | .ended result => (x.registry, .ended result)

def next (x : Traffic) : Move → Traffic
  | .seed p names => { x with registry := x.registry.seed p names }
  | .ensure p =>
    let (started, registry) := x.registry.ensure p
    { registry, calls := if started then x.calls ++ [⟨p, .made⟩] else x.calls }
  | .fetch p =>
    let stage := if x.registry.canFetch p then .made else .ended (.error (.unsupported p))
    { x with calls := x.calls ++ [⟨p, stage⟩] }
  | .reply i reply =>
    match x.calls[i]? with
    | some ⟨p, .asked⟩ => { x with calls := x.calls.set i ⟨p, .told reply⟩ }
    | _ => x
  | .step i =>
    match x.calls[i]? with
    | none => x
    | some c =>
      let (registry, stage) := x.proceed c
      { registry, calls := x.calls.set i ⟨c.provider, stage⟩ }

def after (x : Traffic) (moves : List Move) : Traffic := moves.foldl next x

/-- The names that a move stores for a provider. -/
def stores? (x : Traffic) (provider : Bytes) : Move → Option (List Bytes)
  | .seed p names => if p = provider then some names else none
  | .step i =>
    match x.calls[i]? with
    | some ⟨p, .told (.ok names)⟩ => if p = provider then some names else none
    | _ => none
  | _ => none

/-- All names that moves store for a provider, the latest last. -/
def stored (x : Traffic) (provider : Bytes) : List Move → List (List Bytes)
  | [] => []
  | m :: moves => (x.stores? provider m).toList ++ (x.next m).stored provider moves

theorem next_step {x : Traffic} {i : Nat} {c : Call} (here : x.calls[i]? = some c) :
    x.next (.step i) = ⟨(x.proceed c).1, x.calls.set i ⟨c.provider, (x.proceed c).2⟩⟩ := by
  simp only [next, here]

/-! ## A call by itself -/

theorem step_last (r : Registry) (front : List Call) (c : Call) :
    next ⟨r, front ++ [c]⟩ (.step front.length) =
      ⟨(proceed ⟨r, front ++ [c]⟩ c).1, front ++ [⟨c.provider, (proceed ⟨r, front ++ [c]⟩ c).2⟩]⟩ := by
  rw [next_step List.getElem?_concat_length]
  simp

theorem reply_last (r : Registry) (front : List Call) (p : Bytes) (reply : Except Bytes (List Bytes)) :
    next ⟨r, front ++ [⟨p, .asked⟩]⟩ (.reply front.length reply) = ⟨r, front ++ [⟨p, .told reply⟩]⟩ := by
  simp [next]

/-- A call that nothing comes between is a fetch. -/
theorem undisturbed {x : Traffic} {p : Bytes} (reply : Except Bytes (List Bytes)) (fetchable : x.registry.canFetch p)
    (alone : x.leader? p = none) :
    x.after [.fetch p, .step x.calls.length, .step x.calls.length, .reply x.calls.length reply,
        .step x.calls.length, .step x.calls.length, .step x.calls.length] =
      ⟨(x.registry.fetch p reply).2, x.calls ++ [⟨p, .ended (x.registry.fetch p reply).1⟩]⟩ := by
  have made : x.next (.fetch p) = ⟨x.registry, x.calls ++ [⟨p, .made⟩]⟩ := by simp [next, fetchable]
  have first : leader? ⟨x.registry, x.calls ++ [⟨p, .made⟩]⟩ p = none := by
    rw [leader?, List.findIdx?_append, ← leader?, alone]
    simp [Stage.isFlying]
  cases reply with
  | ok names => simp [after, made, step_last, reply_last, proceed, first, Registry.fetch, fetchable]
  | error cause => simp [after, made, step_last, reply_last, proceed, first, Registry.fetch, fetchable]

/-! ## What a move does -/

inductive Moved (x : Traffic) : Move → Traffic → Prop
  | idle {m : Move} (silent : ∀ p, x.stores? p m = none) : Moved x m x
  | seeded (p : Bytes) (names : List Bytes) : Moved x (.seed p names) { x with registry := x.registry.seed p names }
  | ensured {p : Bytes} (fetchable : x.registry.canFetch p = true) (absent : x.registry.state p = .absent) :
      Moved x (.ensure p) ⟨x.registry.begin p, x.calls ++ [⟨p, .made⟩]⟩
  | called (p : Bytes) {stage : Stage} (new : stage = .made ∨ stage = .ended (.error (.unsupported p))) :
      Moved x (.fetch p) { x with calls := x.calls ++ [⟨p, stage⟩] }
  | replied {i : Nat} {p : Bytes} (here : x.calls[i]? = some ⟨p, .asked⟩) (reply : Except Bytes (List Bytes)) :
      Moved x (.reply i reply) { x with calls := x.calls.set i ⟨p, .told reply⟩ }
  | stepped {i : Nat} {c : Call} (here : x.calls[i]? = some c) :
      Moved x (.step i) ⟨(x.proceed c).1, x.calls.set i ⟨c.provider, (x.proceed c).2⟩⟩

theorem moved (x : Traffic) (m : Move) : Moved x m (x.next m) := by
  cases m with
  | seed p names => exact .seeded p names
  | ensure p =>
      simp only [next, Registry.ensure]
      split
      · rename_i started
        simp only [Bool.and_eq_true, decide_eq_true_eq] at started
        rw [Registry.ensure_started started.2]
        exact .ensured started.1 started.2
      · exact .idle fun _ => rfl
  | fetch p =>
      apply Moved.called p
      split
      · exact .inl rfl
      · exact .inr rfl
  | reply i reply =>
      simp only [next]
      split
      · rename_i here
        exact .replied here reply
      · exact .idle fun _ => rfl
  | step i =>
      cases here : x.calls[i]? with
      | none =>
          simp only [next, here]
          exact .idle fun p => by simp only [stores?, here]
      | some c =>
          rw [next_step here]
          exact .stepped here

/-! ## What becomes of an entry -/

/-- What a move may make of a provider's entry, given the names that it stores. -/
inductive Change : Option (List Bytes) → Option ModelEntry → Option ModelEntry → Prop
  | kept {e : Option ModelEntry} : Change none e e
  | marked {e : Option ModelEntry} : (e.map ModelEntry.state).getD .absent = .absent →
      Change none e (some { state := .loading })
  | cleared {e : Option ModelEntry} : (e.map ModelEntry.state).getD .absent = .loading → Change none e none
  | stored (names : List Bytes) (e : Option ModelEntry) : Change (some names) e (some (.ofNames names))

theorem Change.begin (r : Registry) (provider p : Bytes) : Change none (r.held? p) ((r.begin provider).held? p) := by
  rw [Registry.held?_begin]
  split
  · rename_i absent
    exact .marked absent.2
  · exact .kept

theorem Change.seed (r : Registry) (provider : Bytes) (names : List Bytes) (p : Bytes) :
    Change (if provider = p then some names else none) (r.held? p) ((r.seed provider names).held? p) := by
  rw [Registry.held?_seed]
  split
  · exact .stored names _
  · exact .kept

theorem Change.fail (r : Registry) (provider cause p : Bytes) :
    Change none (r.held? p) ((r.finish provider (.error cause)).held? p) := by
  rw [Registry.held?_finish_error]
  split
  · rename_i loading
    exact .cleared loading.2
  · exact .kept

/-- Every move concerns every entry in one of these ways. -/
theorem Moved.change {x y : Traffic} {m : Move} (moved : Moved x m y) (p : Bytes) :
    Change (x.stores? p m) (x.registry.held? p) (y.registry.held? p) := by
  cases moved with
  | idle silent =>
      rw [silent]
      exact .kept
  | seeded q names => exact .seed ..
  | ensured => exact .begin ..
  | called => exact .kept
  | replied => exact .kept
  | @stepped i c here =>
      obtain ⟨q, stage⟩ := c
      rw [stores?, here]
      cases stage with
      | entered => exact .begin ..
      | told reply =>
          cases reply with
          | ok names => exact .seed ..
          | error cause => exact .fail _ _ cause _
      | _ => exact .kept

/-- The parts of an entry still fit together. -/
theorem Change.consistent {stored : Option (List Bytes)} {before e : Option ModelEntry} (change : Change stored before e)
    (consistent : ∀ e, before = some e → e.Consistent) : ∀ e', e = some e' → e'.Consistent := by
  cases change with
  | kept => exact consistent
  | marked =>
      rintro _ ⟨⟩
      exact ModelEntry.consistent_loading
  | cleared => simp
  | stored names =>
      rintro _ ⟨⟩
      exact ModelEntry.consistent_ofNames names

/-- A list that is known is changed by what is stored only. -/
theorem Change.known {stored : Option (List Bytes)} {before e : Option ModelEntry} (change : Change stored before e)
    (known : (before.map ModelEntry.state).getD .absent = .loaded ∨ (before.map ModelEntry.state).getD .absent = .empty) :
    e = (stored.map fun names => some (.ofNames names)).getD before := by
  cases change with
  | kept => rfl
  | marked absent => simp [absent] at known
  | cleared loading => simp [loading] at known
  | stored => rfl

/-! ## What becomes of a registry -/

theorem Moved.consistent {x y : Traffic} {m : Move} (moved : Moved x m y) (consistent : x.registry.Consistent) :
    y.registry.Consistent := fun p => (moved.change p).consistent (consistent p)

theorem consistent_after (moves : List Move) {x : Traffic} (consistent : x.registry.Consistent) :
    (x.after moves).registry.Consistent := by
  induction moves generalizing x with
  | nil => exact consistent
  | cons m moves ih => exact ih ((x.moved m).consistent consistent)

theorem consistent_start (fetchable : List Bytes) : (start fetchable).registry.Consistent := by
  simp [Registry.Consistent, start, Registry.empty, Registry.held?]

theorem isKnown_of_moved {x y : Traffic} {m : Move} {p : Bytes} (moved : Moved x m y) (known : x.registry.IsKnown p) :
    y.registry.IsKnown p := by
  have changed := (moved.change p).known known
  rw [Registry.IsKnown, Registry.state, changed]
  cases x.stores? p m with
  | none => exact known
  | some names =>
      simp only [Option.map_some, Option.getD_some, ModelEntry.state_ofNames]
      split <;> simp

theorem isKnown_after {p : Bytes} (moves : List Move) {x : Traffic} (known : x.registry.IsKnown p) :
    (x.after moves).registry.IsKnown p := by
  induction moves generalizing x with
  | nil => exact known
  | cons m moves ih => exact ih (isKnown_of_moved (x.moved m) known)

/-- A list that is known is in the end what was stored last, or what it was. -/
theorem names_after {p : Bytes} (moves : List Move) {x : Traffic} (known : x.registry.IsKnown p) :
    (x.after moves).registry.names p = ((x.stored p moves).getLast?.map Registry.listed).getD (x.registry.names p) := by
  induction moves generalizing x with
  | nil => rfl
  | cons m moves ih =>
      have changed := ((x.moved m).change p).known known
      have names : (x.next m).registry.names p = ((x.stores? p m).map Registry.listed).getD (x.registry.names p) := by
        rw [Registry.names, changed]
        cases x.stores? p m with
        | none => rfl
        | some names => exact ModelEntry.names_ofNames names
      rw [after, List.foldl_cons, ← after, ih (isKnown_of_moved (x.moved m) known), stored, List.getLast?_append, names]
      cases (x.next m).stored p moves |>.getLast? with
      | none => cases x.stores? p m <;> rfl
      | some latest => rfl

/-- Nothing is taken back when a call fails for which there is a list. -/
theorem step_failed {x : Traffic} {p cause : Bytes} {i : Nat} (here : x.calls[i]? = some ⟨p, .told (.error cause)⟩)
    (known : x.registry.IsKnown p) : (x.next (.step i)).registry = x.registry := by
  rw [next_step here]
  exact if_neg known.state_ne_loading

/-- Whatever the order of all steps: a list is loaded exactly if it has names, names are in strictly increasing order,
    and a model is found among them exactly if it is there; a list that is being loaded has no names. A list that is
    known stays known, and is changed by what is stored only, so that a call that fails leaves it as it was. A call
    that nothing comes between does what a fetch does at one go. -/
theorem lists_consistent_and_kept (fetchable : List Bytes) (moves : List Move) (p : Bytes) :
    let x := (start fetchable).after moves
    let r := x.registry
    (r.state p = .loaded ↔ r.names p ≠ []) ∧
    Registry.Tidy (r.names p) ∧
    (∀ model found, r.has? p model = some found ↔ r.state p = .loaded ∧ (found = true ↔ model ∈ r.names p)) ∧
    (r.state p = .loading → r.names p = []) ∧
    (r.state p = .loaded ∨ r.state p = .empty →
      (∀ later, let after := (x.after later).registry
        (after.state p = .loaded ∨ after.state p = .empty) ∧
        after.names p = ((x.stored p later).getLast?.map Registry.listed).getD (r.names p)) ∧
      ∀ i cause, x.calls[i]? = some ⟨p, .told (.error cause)⟩ → (x.next (.step i)).registry = r) ∧
    ∀ reply, r.canFetch p = true → x.leader? p = none →
      x.after [.fetch p, .step x.calls.length, .step x.calls.length, .reply x.calls.length reply,
          .step x.calls.length, .step x.calls.length, .step x.calls.length] =
        ⟨(r.fetch p reply).2, x.calls ++ [⟨p, .ended (r.fetch p reply).1⟩]⟩ := by
  intro x r
  have consistent : r.Consistent := consistent_after moves (consistent_start fetchable)
  refine ⟨consistent.loaded, consistent.tidy, fun _ _ => consistent.has?, consistent.loading, fun known => ?_,
    fun reply => undisturbed reply⟩
  exact ⟨fun later => ⟨isKnown_after later known, names_after later known⟩, fun i cause here => step_failed here known⟩

/-- Names that arrive while a call waits outlive its failure. -/
theorem lists_consistent_and_kept_waiting :
    let x := (start [utf8 "p"]).after
      [.ensure (utf8 "p"), .step 0, .step 0, .seed (utf8 "p") [utf8 "b", [], utf8 "a", utf8 "b"], .reply 0 (.error [])]
    utf8 "a" ∈ x.registry.names (utf8 "p") ∧ (x.next (.step 0)).registry = x.registry := by
  intro x
  obtain ⟨loaded, -, -, -, kept, -⟩ := lists_consistent_and_kept [utf8 "p"]
    [.ensure (utf8 "p"), .step 0, .step 0, .seed (utf8 "p") [utf8 "b", [], utf8 "a", utf8 "b"], .reply 0 (.error [])]
    (utf8 "p")
  have names : x.registry.names (utf8 "p") = Registry.listed [utf8 "b", [], utf8 "a", utf8 "b"] := rfl
  have named : utf8 "a" ∈ x.registry.names (utf8 "p") := by
    rw [names, Registry.listed, Bytes.mem_sorted]
    decide
  exact ⟨named, (kept (.inl (loaded.mpr (List.ne_nil_of_mem named)))).2 0 [] rfl⟩

end Traffic

end Colloquy
