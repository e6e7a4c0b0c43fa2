import RecordStore.Event
import RecordStore.Record.Basic

/-!
# Storages

A storage keeps records where they outlive the server, or does as if. It is written to record by
record and asked for one record, for all, or for their keys. Every operation says how it ended and
what the storage is afterwards, also when it failed.

Model of `PersistenceBackend`, sections 6 and 13 of the specification.

* `Outcome`: the end of an operation.
* `Storage`: the operations. The keys are those of the records loaded, and a record compares equal
  to the stored one of its key when key, newest value and metadata agree; a storage may know these
  better.
* `cancelled` asks whether a pass under way should end; only a storage under test ever says so.
-/

namespace RecordStore

/-- How an operation ended, with the state of things then and what is worth noting. -/
structure Outcome (σ α : Type) where
  result : Except StoreError α
  state : σ
  events : List Event := []

namespace Outcome

/-- A good end. -/
def ok (value : α) (s : σ) : Outcome σ α := ⟨.ok value, s, []⟩

/-- A failure. -/
def fail (e : StoreError) (s : σ) : Outcome σ α := ⟨.error e, s, []⟩

/-- The same end with another value. -/
def map (f : α → β) (o : Outcome σ α) : Outcome σ β :=
  { o with result := o.result.map f }

/-- The same end of an operation on a part. -/
def within (f : σ → τ) (o : Outcome σ α) : Outcome τ α :=
  { o with state := f o.state }

/-- Goes on with the value of a good end. -/
def andThen (o : Outcome σ α) (next : α → σ → Outcome σ β) : Outcome σ β :=
  match o.result with
  | .error e => ⟨.error e, o.state, o.events⟩
  | .ok value =>
    let more := next value o.state
    { more with events := o.events ++ more.events }

/-- The same end with another error for a failure. -/
def mapError (f : StoreError → StoreError) (o : Outcome σ α) : Outcome σ α :=
  { o with result := o.result.mapError f }

end Outcome

/-- The end of a comparison, from the end of reading the stored record. -/
def compareWith (r : Snapshot) : Except StoreError Snapshot → Except StoreError Bool
  | .ok stored => .ok (stored.sameState r)
  | .error (.keyNotFound _) => .ok false
  | .error e => .error e

/-- What keeps records. -/
class Storage (σ : Type) where
  /-- What it is called. -/
  name : σ → String
  /-- Whether what was written can be loaded later. -/
  retains : σ → Bool := fun _ => true
  /-- Stores a record in place of any of its key. -/
  write : Snapshot → σ → Outcome σ Unit
  /-- The record of a key. -/
  read : String → σ → Outcome σ Snapshot
  /-- Removes the record of a key, if there is one. -/
  delete : String → σ → Outcome σ Unit
  /-- Every record. -/
  load : σ → Outcome σ (List Snapshot)
  /-- Every key. -/
  keys : σ → Outcome σ (List String) := fun s => (load s).map (·.map Snapshot.key)
  /-- Whether a record agrees with the stored one of its key. -/
  compare : Snapshot → σ → Outcome σ Bool := fun r s =>
    let o := read r.key s
    ⟨compareWith r o.result, o.state, o.events⟩
  /-- Makes sure of what was written. -/
  flush : σ → Outcome σ Unit := fun s => .ok () s
  /-- Whether a pass under way should end. -/
  cancelled : σ → Bool := fun _ => false

end RecordStore
