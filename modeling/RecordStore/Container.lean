import RecordStore.Query
import RecordStore.Record.Basic

/-!
# Containers

A container holds the records in use, each under its key. Its listings are in ascending order of
keys. A change that is refused leaves the container as it is.

Model of `RecordContainer`, section 4.4 of the specification: `upsert` is `update_or_insert`, `load`
is `bulk_load`, and `modify` is what a request does to a record it has found.

* `set` puts a record in place, `upsert` changes the record of a key or creates it, `update`
  changes a record that must be there, `modify` changes one that may be there.
* `load` adds stored records one by one up to the first that belongs to no record, and says how
  many it added.
* `find` and `findByMetadata` search, `snapshots` lists everything as it is stored.
-/

namespace RecordStore

/-- The records in use. -/
structure Container where
  records : Dict Record
  deriving DecidableEq

namespace Container

/-- No records. -/
def empty : Container := ⟨∅⟩

instance : EmptyCollection Container := ⟨empty⟩

instance : Inhabited Container := ⟨empty⟩

/-- The number of records. -/
def size (c : Container) : Nat := c.records.size

/-- Whether there is no record. -/
def isEmpty (c : Container) : Bool := c.records.isEmpty

/-- Whether a key is in use. -/
def contains (c : Container) (key : String) : Bool := c.records.contains key

/-- The record of a key. -/
def get? (c : Container) (key : String) : Option Record := c.records[key]?

/-- Puts a record under a key, over any that was there. -/
def insert (c : Container) (key : String) (r : Record) : Container :=
  ⟨c.records.insert key r⟩

/-- Takes a key out of use. -/
def erase (c : Container) (key : String) : Container :=
  ⟨c.records.erase key⟩

/-- Whether a record may be put under a key: a key that may be used, and its own. -/
def checkEntry (key : String) (r : Record) : Except StoreError Unit :=
  if r.key = key then .ok () else .error (.keyMismatch key r.key)

/-- Puts a record under its key, over any that was there. -/
def set (c : Container) (key : String) (r : Record) : Except StoreError Container := do
  checkKey key
  checkEntry key r
  return c.insert key r

/-- Changes the record of a key or, if there is none, puts the one that `create` makes there. -/
def upsert (c : Container) (key : String) (create : Unit → Except StoreError (Record × α))
    (change : Record → Except StoreError α × Record) : Except StoreError α × Container :=
  match checkKey key with
  | .error e => (.error e, c)
  | .ok () =>
    match c.get? key with
    | some r =>
      let (answer, r) := change r
      (answer, c.insert key r)
    | none =>
      match create () with
      | .error e => (.error e, c)
      | .ok (r, answer) =>
        match checkEntry key r with
        | .error e => (.error e, c)
        | .ok () => (.ok answer, c.insert key r)

/-- Changes the record of a key, if there is one. -/
def modify (c : Container) (key : String) (change : Record → α × Record) : Option α × Container :=
  match c.get? key with
  | some r =>
    let (answer, r) := change r
    (some answer, c.insert key r)
  | none => (none, c)

/-- Changes the record of a key, which must be there. -/
def update (c : Container) (key : String) (change : Record → Except StoreError α × Record) :
    Except StoreError α × Container :=
  match checkKey key with
  | .error e => (.error e, c)
  | .ok () =>
    match c.modify key change with
    | (some answer, c) => (answer, c)
    | (none, c) => (.error (.keyNotFound key), c)

/-- Every key. -/
def keys (c : Container) : List String := c.records.keys

/-- The keys that begin like this. -/
def find (c : Container) (start : String) : List String :=
  c.keys.filter fun key => start.toList.isPrefixOf key.toList

/-- The keys of the records whose metadata a query accepts. -/
def findByMetadata (c : Container) (text : String) : Except StoreError (List String) :=
  (Query.parse text).map fun query =>
    (c.records.toList.filter fun entry => query.accepts entry.2.metadata).map (·.1)

/-- Adds stored records in turn, up to the first that belongs to no record. -/
def load (c : Container) : List Snapshot → Except StoreError Nat × Container
  | [] => (.ok 0, c)
  | s :: rest =>
    match Record.ofSnapshot s with
    | .error e => (.error e, c)
    | .ok r =>
      let (count, c) := (c.insert r.key r).load rest
      (count.map (· + 1), c)

/-- Every record as it is stored. -/
def snapshots (c : Container) : List Snapshot :=
  c.records.toList.map fun entry => entry.2.snapshot

theorem get?_insert (c : Container) (key other : String) (r : Record) :
    (c.insert key r).get? other = if key = other then some r else c.get? other := by
  simp [insert, get?, Std.ExtTreeMap.getElem?_insert]

theorem get?_erase (c : Container) (key other : String) :
    (c.erase key).get? other = if key = other then none else c.get? other := by
  simp [erase, get?, Std.ExtTreeMap.getElem?_erase]

theorem ext_get? {c d : Container} (h : ∀ key, c.get? key = d.get? key) : c = d := by
  cases c; cases d
  exact congrArg Container.mk (Std.ExtTreeMap.ext_getElem? h)

end Container

end RecordStore
