import RecordStore.History
import RecordStore.Metadata

/-!
# Records

A record has an id, a key, the history of its value and its metadata. A `Snapshot` is a record as
it is stored: the same four parts as plain data, with the counter among the metadata.

Model of `Record` and `RecordSnapshot`, section 4.3 of the specification.

* `Record.update`, `setMetadata`, `deleteMetadata`: the three changes, each counted once.
* `Record.snapshot` and `Record.ofSnapshot`: between the two forms. A snapshot with no key or no
  value belongs to no record.
* `snapshot_ofSnapshot`: what is kept on the way through a record.
-/

namespace RecordStore

/-- A record as it is stored. -/
structure Snapshot where
  id : Id
  key : String
  values : List Bytes
  metadata : Dict String
  deriving DecidableEq

namespace Snapshot

instance : Inhabited Snapshot := ⟨⟨default, "", [], ∅⟩⟩

/-- The newest value. -/
def current? (s : Snapshot) : Option Bytes := s.values.getLast?

/-- Same key, newest value and metadata; ids and older values may differ. -/
def sameState (s t : Snapshot) : Bool :=
  s.key = t.key && s.current? = t.current? && s.metadata = t.metadata

end Snapshot

/-- A key that may be used. -/
def checkKey (key : String) : Except StoreError Unit :=
  if key.isEmpty then .error .emptyKey else .ok ()

/-- A record in use. -/
structure Record where
  id : Id
  key : String
  history : History
  metadata : Metadata
  deriving DecidableEq

namespace Record

instance : Inhabited Record := ⟨⟨default, "", default, default⟩⟩

/-- A new record with one value. -/
def create (id : Id) (key : String) (value : Bytes) : Except StoreError Record := do
  checkKey key
  return ⟨id, key, .single value, ∅⟩

/-- The record that is stored like this. -/
def ofSnapshot (s : Snapshot) : Except StoreError Record := do
  checkKey s.key
  match History.ofList? s.values with
  | some history => return ⟨s.id, s.key, history, .ofDict s.metadata⟩
  | none => throw (.corruption (.noValues s.key))

/-- The record as it is stored. -/
def snapshot (r : Record) : Snapshot :=
  ⟨r.id, r.key, r.history.values, r.metadata.toDict⟩

/-- Gives the record a new value. -/
def update (r : Record) (value : Bytes) : Record :=
  { r with history := r.history.append value, metadata := r.metadata.bump }

/-- The value of a version. -/
def get (r : Record) (version : Version) : Except StoreError Bytes := r.history.get version

/-- Sets a metadata entry. -/
def setMetadata (r : Record) (name value : String) : Except StoreError Record :=
  (r.metadata.set name value).map fun m => { r with metadata := m }

/-- The value of a metadata entry. -/
def getMetadata (r : Record) (name : String) : Except StoreError String :=
  if name.isEmpty then .error .emptyKey
  else match r.metadata.get? name with
    | some value => .ok value
    | none => .error (.metadataKeyNotFound r.key name)

/-- Removes a metadata entry, which must be there. -/
def deleteMetadata (r : Record) (name : String) : Except StoreError Record :=
  match r.metadata.delete name with
  | .ok (some m) => .ok { r with metadata := m }
  | .ok none => .error (.metadataKeyNotFound r.key name)
  | .error e => .error e

theorem ofSnapshot_eq_ok {s : Snapshot} {h : History} (hk : s.key.isEmpty = false)
    (hv : History.ofList? s.values = some h) :
    ofSnapshot s = .ok ⟨s.id, s.key, h, .ofDict s.metadata⟩ := by
  simp [ofSnapshot, checkKey, hk, hv, bind, Except.bind, pure, Except.pure]

theorem snapshot_ofSnapshot {s : Snapshot} {r : Record} (h : ofSnapshot s = .ok r) :
    r.snapshot = { s with metadata := (Metadata.ofDict s.metadata).toDict } := by
  cases hk : s.key.isEmpty
  · cases hv : History.ofList? s.values with
    | none => simp [ofSnapshot, checkKey, hk, hv, bind, Except.bind, throw, throwThe,
        MonadExceptOf.throw] at h
    | some history =>
      rw [ofSnapshot_eq_ok hk hv, Except.ok.injEq] at h
      subst h
      simp only [History.ofList?] at hv
      split at hv
      · simp only [Option.some.injEq] at hv; subst hv; rfl
      · simp at hv
  · simp [ofSnapshot, checkKey, hk, bind, Except.bind] at h

end Record

end RecordStore
