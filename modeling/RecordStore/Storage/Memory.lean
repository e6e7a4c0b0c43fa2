import RecordStore.Storage.Basic

/-!
# Storage in memory

Records in a dictionary, for tests and for running without a disk. Any record can be stored.

Model of `MemoryBackend`, section 13 of the specification.
-/

namespace RecordStore

/-- Records in a dictionary. -/
structure MemoryStore where
  records : Dict Snapshot
  deriving DecidableEq

namespace MemoryStore

/-- No records. -/
def empty : MemoryStore := ⟨∅⟩

instance : EmptyCollection MemoryStore := ⟨empty⟩

instance : Inhabited MemoryStore := ⟨empty⟩

/-- Stores a record in place of any of its key. -/
def write (r : Snapshot) (s : MemoryStore) : MemoryStore := ⟨s.records.insert r.key r⟩

/-- Removes the record of a key. -/
def delete (key : String) (s : MemoryStore) : MemoryStore := ⟨s.records.erase key⟩

/-- The record of a key. -/
def read (key : String) (s : MemoryStore) : Except StoreError Snapshot :=
  match s.records[key]? with
  | some r => .ok r
  | none => .error (.keyNotFound key)

/-- The record that fills place `i` of a store for trial. -/
def sample (i : Nat) (id : Id) : Snapshot :=
  let r : Record := ⟨id, s!"key-{i}", .single s!"value-{i}".toUTF8.data.toList, ∅⟩
  r.snapshot

/-- Stores a sample for each of the ids. -/
def populate (ids : List Id) (s : MemoryStore) : MemoryStore :=
  (ids.mapIdx sample).foldl (fun s r => s.write r) s

instance : Storage MemoryStore where
  name _ := "memory"
  write r s := .ok () (s.write r)
  read key s := ⟨s.read key, s, []⟩
  delete key s := .ok () (s.delete key)
  load s := .ok s.records.values s
  keys s := .ok s.records.keys s

end MemoryStore

end RecordStore
