import Colloquy.Toml.Statement

/-! # TOML documents

The table that a list of statements builds. A key is defined once, with two exceptions: a table that
only arose as part of a longer key may still be defined itself, and a value may take the place of an
array that was written out.
-/

namespace Colloquy.Toml

/-- A value in a document. -/
inductive Item
  | integer (n : Int)
  | bool (b : Bool)
  | text (t : Bytes)
  /-- A float or a date. -/
  | other
  /-- An array that is written out. -/
  | array
  /-- An array of tables; the last table is open. -/
  | tables (ts : List (List (Bytes × Item)))
  | table (entries : List (Bytes × Item))
  deriving Repr, Inhabited

abbrev Table := List (Bytes × Item)

def Table.item? (t : Table) (name : Bytes) : Option Item := (List.find? (fun e => e.1 == name) t).map (·.2)

/-- The document so far. -/
structure Build where
  root : Table
  /-- The table that assignments go to. -/
  context : Key
  /-- Tables that arose as part of a longer key. -/
  implied : List Key
  /-- Keys whose value is an array that is written out. -/
  arrays : List Key

namespace Build

def empty : Build := ⟨[], [], [], []⟩

def tableAt? : Key → Table → Option Table
  | [], t => some t
  | k :: path, t =>
    match Table.item? t k with
    | some (.table inner) => tableAt? path inner
    | some (.tables ts) => ts.getLast?.bind (tableAt? path)
    | _ => none

/-- Put an item at a path and name, in the place of what is there. -/
def put (name : Bytes) (item : Item) : Key → Table → Table
  | [], t =>
    if (Table.item? t name).isSome then t.map fun e => if e.1 == name then (name, item) else e
    else t ++ [(name, item)]
  | k :: path, t => t.map fun e =>
    if e.1 == k then
      match e.2 with
      | .table inner => (k, .table (put name item path inner))
      | .tables ts => (k, .tables (ts.dropLast ++ (ts.getLast?.map (put name item path)).toList))
      | item => (k, item)
    else e

def define (b : Build) (name : Bytes) (item : Item) : Option Build := do
  let t ← tableAt? b.context b.root
  let key := b.context ++ [name]
  let placed := { b with root := put name item b.context b.root }
  if (Table.item? t name).isNone then some placed
  else if b.arrays.any (· == key) then some { placed with implied := b.implied.filter (· != key) }
  else if b.implied.any (· == key) then some { b with implied := b.implied.filter (· != key) }
  else none

/-- Note whether the value of a key is an array that is written out. -/
def note (b : Build) (key : Key) (isArray : Bool) : Build :=
  { b with arrays := (if isArray then [key] else []) ++ b.arrays.filter (· != key) }

/-- Note whether the value of a name in the context is an array that is written out. What is noted of an
    empty name is noted of the context, if there is one. -/
def noteName (b : Build) (name : Bytes) (isArray : Bool) : Build :=
  b.note (if name.isEmpty && !b.context.isEmpty then b.context else b.context ++ [name]) isArray

/-- Make the tables of a path that are missing. -/
def imply (b : Build) (done : Key) : Key → Option Build
  | [] => some b
  | k :: path => do
    let t ← tableAt? done b.root
    let at_ := done ++ [k]
    let b := if (Table.item? t k).isSome then b
      else { b with root := put k (.table []) done b.root, implied := at_ :: b.implied }
    let _ ← tableAt? at_ b.root
    imply b at_ path

/-- Open the table with this key, or a new table of the array with this key. -/
def enter (b : Build) (key : Key) (isArray : Bool) : Option Build := do
  let name ← key.getLast?
  let outer := key.dropLast
  let b ← b.imply [] outer
  let b := { b with context := outer }
  let b ←
    if isArray then do
      let t ← tableAt? outer b.root
      match Table.item? t name with
      | none => some { b with root := put name (.tables [[]]) outer b.root }
      | some (.tables ts) => some { b with root := put name (.tables (ts ++ [[]])) outer b.root }
      | some _ => none
    else b.define name (.table [])
  return { b with context := key }

/-- Open the tables that the front parts of a key name, inside the context. -/
def enterParts (b : Build) : Key → Option Build
  | [] => some b
  | k :: rest => do
    let key := b.context ++ [k]
    let b ← { b with implied := key :: b.implied }.enter key false
    enterParts b rest

mutual

/-- Take in the value of the name in the context; `inArray` for an item of an array. -/
def value (b : Build) (name : Bytes) (inArray : Bool) : Value → Option (Build × Item)
  | .integer n => some (b, .integer n)
  | .float => some (b, .other)
  | .bool v => some (b, .bool v)
  | .text t => some (b, .text t)
  | .datetime => some (b, .other)
  | .array items => do
    let b ← arrayItems (b.noteName name true) name items
    return (b, .array)
  | .inlineTable entries => do
    let outer := b.context
    let key := outer ++ [name]
    let b ← { b with implied := key :: b.implied }.enter key inArray
    let b ← inlineEntries b entries
    return ({ b with context := outer }, .table [])

def arrayItems (b : Build) (name : Bytes) : List Value → Option Build
  | [] => some b
  | v :: rest => do
    let (b, _) ← value b name true v
    arrayItems b name rest

/-- Take in the entries of an inline table, which is the context. -/
def inlineEntries (b : Build) : List (Key × Value) → Option Build
  | [] => some b
  | (key, v) :: rest => do
    let outer := b.context
    let name ← key.getLast?
    let b ← b.enterParts key.dropLast
    let (b, item) ← value b name false v
    let b ← b.define name item
    let b := b.noteName name (match item with | .array => true | _ => false)
    inlineEntries { b with context := outer } rest

end

def statement (b : Build) : Statement → Option Build
  | .table key => do
    let b ← b.enter key false
    return b.note key false
  | .arrayTable key => do
    let b ← b.enter key true
    return b.note key false
  | .assign key v => b.inlineEntries [(key, v)]

end Build

/-- The table of a text, if the text is TOML. -/
def parse? (t : Bytes) : Option Table := do
  let statements ← statements? t
  let b ← statements.foldlM Build.statement Build.empty
  return b.root

end Colloquy.Toml
