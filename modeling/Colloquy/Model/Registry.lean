import Colloquy.Config.Discovery
import Colloquy.Table

/-! # Model registry

Which models each provider serves. A provider's list is absent until it is loaded; while it is being
loaded there is still no list. A list that was loaded stays. Names are kept once each, in byte order, and
as a set besides.
-/

namespace Colloquy

/-- The states of a provider's list. -/
inductive ModelState
  /-- No list has been loaded. -/
  | absent
  /-- The list is being loaded. -/
  | loading
  /-- There is a list with names. -/
  | loaded
  /-- The provider has no models. -/
  | empty
  deriving Repr, DecidableEq

def ModelState.label : ModelState → String
  | .absent => "absent"
  | .loading => "loading"
  | .loaded => "loaded"
  | .empty => "empty"

/-- What the registry knows about a provider. -/
structure ModelEntry where
  state : ModelState
  /-- The names in byte order. -/
  names : List Bytes := []
  /-- The names again, in no order. -/
  set : List Bytes := []
  deriving Repr, DecidableEq

namespace ModelEntry

/-- Take in a name, unless it is empty or was taken in before. -/
def add (e : ModelEntry) (name : Bytes) : ModelEntry :=
  if e.set.contains name || name.isEmpty then e
  else { e with set := name :: e.set, names := e.names ++ [name] }

/-- What is known from the names that a provider gives. -/
def ofNames (names : List Bytes) : ModelEntry :=
  let e := names.foldl add { state := .empty }
  let e := if e.names.isEmpty then e else { e with state := .loaded }
  { e with names := Bytes.sorted e.names }

end ModelEntry

/-- The entries by provider, and the providers whose list can be fetched. -/
structure Registry where
  entries : Table ModelEntry
  fetchable : List Bytes
  deriving Repr, DecidableEq

/-- Why a list could not be fetched. -/
inductive FetchFault
  | unsupported (provider : Bytes)
  | failed (provider cause : Bytes)
  deriving Repr, DecidableEq

def FetchFault.message : FetchFault → Bytes
  | .unsupported provider => utf8 "no model list fetcher for provider: " ++ provider
  | .failed provider cause => utf8 "list " ++ provider ++ utf8 " models: " ++ cause

namespace Registry

def empty (fetchable : List Bytes) : Registry := ⟨.empty, fetchable⟩

def held? (r : Registry) (provider : Bytes) : Option ModelEntry := r.entries.get? provider

/-- Store a provider's names in place of what was known about it. -/
def seed (r : Registry) (provider : Bytes) (names : List Bytes) : Registry :=
  { r with entries := r.entries.set provider (.ofNames names) }

def names (r : Registry) (provider : Bytes) : List Bytes := ((r.held? provider).map ModelEntry.names).getD []

def state (r : Registry) (provider : Bytes) : ModelState :=
  ((r.held? provider).map ModelEntry.state).getD .absent

/-- Whether a model is listed; nothing unless the provider's list is loaded. -/
def has? (r : Registry) (provider model : Bytes) : Option Bool :=
  match r.held? provider with
  | none => none
  | some e => if e.state = .loaded then some (e.set.contains model) else none

def canFetch (r : Registry) (provider : Bytes) : Bool := r.fetchable.any (· == provider)

def providers (r : Registry) : List Bytes := Bytes.sorted r.fetchable

/-- Mark a provider's list as being loaded. -/
def mark (r : Registry) (provider : Bytes) : Registry :=
  { r with entries := r.entries.set provider { state := .loading } }

/-- A fetch begins: a list that is absent is now loading. -/
def begin (r : Registry) (provider : Bytes) : Registry :=
  if r.state provider = .absent then r.mark provider else r

/-- A fetch ends. Its names replace the list; when it failed, a list that was loading is absent again. -/
def finish (r : Registry) (provider : Bytes) : Except Bytes (List Bytes) → Registry
  | .ok names => r.seed provider names
  | .error _ => if r.state provider = .loading then { r with entries := r.entries.erase provider } else r

/-- A fetch from begin to end, with the fetcher's answer. -/
def fetch (r : Registry) (provider : Bytes) (result : Except Bytes (List Bytes)) :
    Except FetchFault (List Bytes) × Registry :=
  if r.canFetch provider then
    let r := (r.begin provider).finish provider result
    match result with
    | .ok _ => (.ok (r.names provider), r)
    | .error cause => (.error (.failed provider cause), r)
  else (.error (.unsupported provider), r)

/-- Start a fetch if the list is absent and can be fetched; whether one was started. -/
def ensure (r : Registry) (provider : Bytes) : Bool × Registry :=
  if r.canFetch provider && r.state provider = .absent then (true, r.mark provider) else (false, r)

end Registry

/-- The providers whose list can be fetched with the keys of an environment. -/
def fetchableProviders (env : Environment) : List Bytes :=
  (Discovery.providerKeys.filter fun p => Discovery.isSet env p.2).map fun p => utf8 p.1

end Colloquy
