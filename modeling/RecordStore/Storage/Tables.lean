import RecordStore.Storage.Basic
import RecordStore.Storage.Pages
import RecordStore.Storage.Site

/-!
# Storage in tables

A record is spread over three tables: one row with the text of its id and its newest value, a row
for each older value under its version, and a row for each metadata entry. Writing a record
replaces the rows of its key in all three at once.

Model of `SqliteBackend`, the relational storage of section 13 of the specification, over its
tables `records`, `old_values` and `metadata`: `openAt` is `open`, `read` is `read_locked`, the keys
are those of `keys_locked`, and `write`, `delete` and `load` keep their names. One change is one
transaction.

* A record without values cannot be written, for there is nothing to put into its first row.
* Texts, values and rows may only be so long (`Pages.maxLength`). A record that has a longer one
  cannot be written either, and a longer key cannot be asked for.
* The text of an id is only read again when the record is; a text that is none is found then.
* The tables are kept in a file of pages. If that may not become as long as a change needs, the
  change fails as a whole. What it has done to the file by then is undone before anything else, and
  as long as the file may not become as long as that needs, everything fails.
-/

namespace RecordStore

/-- A value that is no longer the newest. -/
structure OldValue where
  key : String
  version : Nat
  value : Bytes
  deriving DecidableEq

/-- A metadata entry. -/
structure MetadataRow where
  key : String
  name : String
  value : String
  deriving DecidableEq

/-- The row of a record. -/
structure RecordRow where
  id : String
  value : Bytes
  deriving DecidableEq

/-- The three tables, and the file of pages they are kept in. -/
structure TableStore where
  records : Dict RecordRow
  oldValues : List OldValue
  metadata : List MetadataRow
  pages : PageFile := {}
  /-- How long the file may become, if that is limited. -/
  limit : Option Nat := none
  /-- How long the file has to become before anything is read or changed, to undo a change. -/
  owed : Nat := 0
  /-- No key is longer than a text may be. -/
  short : ∀ key ∈ records, key.utf8ByteSize ≤ Pages.maxLength

namespace TableStore

/-- Empty tables. -/
def empty : TableStore where
  records := ∅
  oldValues := []
  metadata := []
  short _ h := absurd h Std.ExtTreeMap.not_mem_empty

instance : EmptyCollection TableStore := ⟨empty⟩

instance : Inhabited TableStore := ⟨empty⟩

/-- The tables at a path. A file that is there is none of ours; one with a single byte counts as
empty. -/
def openAt : Site → Except StoreError TableStore
  | .file content => if content.size ≤ 1 then .ok empty else .error (.backend .database)
  | .directory => .error (.backend .database)
  | .belowFile => .error (.backend .system)

/-- Does something after undoing what is left of a change that failed, if that is possible. -/
def whenSettled (s : TableStore) (act : TableStore → Outcome TableStore α) :
    Outcome TableStore α :=
  if s.limit.all (s.owed ≤ ·) then act { s with owed := 0 } else .fail (.backend .database) s

/-- Does something with the rows of a key, after that, if the key is not too long. -/
def whenShort (key : String) (s : TableStore) (act : TableStore → Outcome TableStore α) :
    Outcome TableStore α :=
  if key.utf8ByteSize ≤ Pages.maxLength then s.whenSettled act else .fail (.backend .database) s

/-- The tables after a change of their file and of their rows, which fails as a whole. -/
def changed (s : TableStore) (pages : Except Nat PageFile) (rows : TableStore) :
    Outcome TableStore Unit :=
  match pages with
  | .ok pages => .ok () { rows with pages }
  | .error owed => .fail (.backend .database) { s with owed }

/-- The tables without every row of a key. -/
def without (key : String) (s : TableStore) : TableStore :=
  { s with
    records := s.records.erase key
    oldValues := s.oldValues.filter (·.key ≠ key)
    metadata := s.metadata.filter (·.key ≠ key)
    short k h := s.short k (Std.ExtTreeMap.mem_of_mem_erase h) }

/-- Removes every row of a key. -/
def delete (key : String) (s : TableStore) : Outcome TableStore Unit :=
  s.whenShort key fun s => s.changed (s.pages.change s.limit (·.delete key)) (s.without key)

/-- The tables with the rows of a record and its newest value in place of those of its key. -/
def replaced (r : Snapshot) (value : Bytes) (h : r.key.utf8ByteSize ≤ Pages.maxLength)
    (s : TableStore) : TableStore :=
  let s := s.without r.key
  { s with
    records := s.records.insert r.key ⟨r.id.toText, value⟩
    oldValues := s.oldValues ++ r.values.dropLast.mapIdx fun version value =>
      ⟨r.key, version, value⟩
    metadata := s.metadata ++ r.metadata.toList.map fun entry => ⟨r.key, entry.1, entry.2⟩
    short k hk := by
      rcases Dict.mem_insert_iff.mp hk with rfl | hk
      · exact h
      · exact s.short k hk }

/-- Puts the rows of a record in place of those of its key. -/
def write (r : Snapshot) (s : TableStore) : Outcome TableStore Unit :=
  match r.current? with
  | none => .fail (.corruption (.noValues r.key)) s
  | some value =>
    if h : r.key.utf8ByteSize ≤ Pages.maxLength ∧ value.length ≤ Pages.maxLength then
      s.whenSettled fun s =>
        s.changed (s.pages.change s.limit fun trees =>
            trees.write r.key r.id.toText value.length (r.values.dropLast.map List.length)
              r.metadata.toList)
          (s.replaced r value h.1)
    else .fail (.backend .database) s

/-- The older values of a key, by version. -/
def olderValues (key : String) (s : TableStore) : List Bytes :=
  ((s.oldValues.filter (·.key = key)).mergeSort fun a b => a.version ≤ b.version).map (·.value)

/-- The metadata of a key. -/
def metadataOf (key : String) (s : TableStore) : Dict String :=
  .ofList ((s.metadata.filter (·.key = key)).map fun row => (row.name, row.value))

/-- The record of a key. -/
def read (key : String) (s : TableStore) : Except StoreError Snapshot :=
  match s.records[key]? with
  | none => .error (.keyNotFound key)
  | some row =>
    match Id.parse row.id with
    | .error fault => .error (.corruption (.unreadableId key fault))
    | .ok id => .ok ⟨id, key, s.olderValues key ++ [row.value], s.metadataOf key⟩

/-- Every record in ascending order of keys, up to the first that cannot be read. -/
def load (s : TableStore) : Except StoreError (List Snapshot) :=
  s.records.keys.mapM fun key => s.read key

/-- Replaces the text of a record's id, while nothing else has the file open. A text of the same
length goes where the old one is. -/
def setId (key text : String) (s : TableStore) : TableStore :=
  match s.records[key]? with
  | none => { s with owed := 0 }
  | some row =>
    let pages :=
      if row.id.utf8ByteSize = text.utf8ByteSize then s.pages
      else s.pages.changeFreely (·.setId key text row.value.length)
    { s with
      records := s.records.modify key ({ · with id := text })
      pages
      owed := 0
      short k h := s.short k (Std.ExtTreeMap.mem_modify.mp h) }

/-- The tables after closing their file and opening it again. -/
def reopen (s : TableStore) : TableStore := { s with limit := none, owed := 0 }

instance : Storage TableStore where
  name _ := "sqlite"
  write r s := s.write r
  read key s := s.whenShort key fun s => ⟨s.read key, s, []⟩
  delete key s := s.delete key
  load s := s.whenSettled fun s => ⟨s.load, s, []⟩
  keys s := s.whenSettled fun s => .ok s.records.keys s

end TableStore

end RecordStore
