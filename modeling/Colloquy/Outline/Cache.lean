import Colloquy.Outline.Basic

/-! # Snapshot cache

A snapshot is one version of a document with its scan and outline. The cache keeps the snapshots used
most recently, at most one per document, and hands out the very snapshot it built before as long as
neither version nor text has changed.
-/

namespace Colloquy

/-- One version of a document, analysed. -/
structure Snapshot where
  /-- Tells snapshots apart that were built at different times. -/
  serial : Nat
  uri : Bytes
  version : Int64
  document : Document
  outline : Outline
  deriving DecidableEq

def Snapshot.text (s : Snapshot) : Bytes := s.document.text

def Snapshot.analyze (serial : Nat) (uri : Bytes) (version : Int64) (text : Bytes) : Snapshot :=
  let document := Document.ofText text
  ⟨serial, uri, version, document, Outline.ofDocument document⟩

/-- Snapshots, the one used last first. -/
structure Cache where
  capacity : Nat
  /-- How many snapshots have been built. -/
  built : Nat
  entries : List Snapshot
  deriving DecidableEq

namespace Cache

/-- An empty cache; a capacity that is not positive means 64. -/
def empty (capacity : Int) : Cache := ⟨if capacity ≤ 0 then 64 else capacity.toNat, 0, []⟩

def forget (c : Cache) (uri : Bytes) : Cache :=
  { c with entries := c.entries.filter fun s => s.uri != uri }

/-- The snapshot of a document, from the cache if version and text are the same. A new snapshot
    replaces every other one of the document, and the one unused for longest goes when the cache is
    full. -/
def get (c : Cache) (uri : Bytes) (version : Int64) (text : Bytes) : Snapshot × Cache :=
  let hit := c.entries.find? fun s => s.uri == uri && s.version == version
  match hit.filter fun s => s.text == text with
  | some s =>
    (s, { c with entries := s :: c.entries.filter fun e => !(e.uri == uri && e.version == version) })
  | none =>
    let s := Snapshot.analyze c.built uri version text
    let others := (c.forget uri).entries
    (s, { c with built := c.built + 1, entries := (s :: others).take c.capacity })

def size (c : Cache) : Nat := c.entries.length

end Cache

end Colloquy
