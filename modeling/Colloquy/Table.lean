import Colloquy.Text.Bytes

/-! # Tables

Values under keys. A key stands in a table once at most, so a table answers with one value for a key, or with none.
The lemmas say what it answers after a value was put in or taken out.
-/

namespace Colloquy

/-- Values under keys, the one put in last first. -/
structure Table (α : Type) where
  entries : List (Bytes × α)
  nodup : (entries.map Prod.fst).Nodup
  deriving Repr, DecidableEq

namespace Table

variable {α : Type}

def empty : Table α := ⟨[], .nil⟩

def get? (t : Table α) (key : Bytes) : Option α := (t.entries.find? fun e => e.1 == key).map Prod.snd

def erase (t : Table α) (key : Bytes) : Table α where
  entries := t.entries.filter fun e => e.1 != key
  nodup := t.nodup.sublist (List.filter_sublist.map Prod.fst)

/-- Put a value under a key, in place of the one that is there. -/
def set (t : Table α) (key : Bytes) (value : α) : Table α where
  entries := (key, value) :: (t.erase key).entries
  nodup := List.nodup_cons.mpr ⟨by simp [erase], (t.erase key).nodup⟩

@[simp]
theorem get?_empty (key : Bytes) : (empty : Table α).get? key = none := rfl

theorem get?_eq_some_iff {t : Table α} {key : Bytes} {value : α} :
    t.get? key = some value ↔ (key, value) ∈ t.entries := by
  obtain ⟨entries, nodup⟩ := t
  simp only [get?]
  induction entries with
  | nil => simp
  | cons e rest ih =>
      obtain ⟨here, v⟩ := e
      obtain ⟨fresh, nodup⟩ := List.nodup_cons.mp nodup
      by_cases same : here = key
      · subst same
        -- The key does not come again behind this entry.
        have other : (here, value) ∉ rest := fun member => fresh (List.mem_map.mpr ⟨_, member, rfl⟩)
        simp [other, eq_comm]
      · simp [same, ih nodup, Ne.symm same]

@[simp]
theorem get?_erase (t : Table α) (gone key : Bytes) :
    (t.erase gone).get? key = if gone = key then none else t.get? key := by
  apply Option.ext
  intro value
  by_cases same : gone = key
  · simp [get?_eq_some_iff, erase, same]
  · simp [get?_eq_some_iff, erase, same, Ne.symm same]

@[simp]
theorem get?_set (t : Table α) (here key : Bytes) (value : α) :
    (t.set here value).get? key = if here = key then some value else t.get? key := by
  apply Option.ext
  intro v
  by_cases same : here = key
  · simpa [get?_eq_some_iff, set, erase, same] using eq_comm
  · simp [get?_eq_some_iff, set, erase, same, Ne.symm same]

end Table

end Colloquy
