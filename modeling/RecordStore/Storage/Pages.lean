import RecordStore.Storage.Pages.Table

/-!
# Files of pages

The file that tables are kept in: pages of one length, on which every table has a tree for its rows
and one for their keys. Which pages a change needs depends on everything that was done before, so
the trees are kept here as they are on the pages; of values only the lengths matter.

* `PageFile`: the trees of the three tables, and the pages.
* `PageFile.change`: what a change does to the file if that may only become so long, or the length
  it has to reach once more before it is as it was. So ends a change that was given up as well.
* `PageFile.Trees.write` and `PageFile.Trees.delete` are such changes.
-/

namespace RecordStore

open Pages

/-- The trees of the tables. The first page tells of them, and the roots follow. -/
structure PageFile.Trees where
  records : Table := .rooted 2
  oldValues : Table := .rooted 4
  metadata : Table := .rooted 6

/-- A file of pages. -/
structure PageFile where
  trees : PageFile.Trees := {}
  space : Space := ⟨7, []⟩

namespace PageFile

namespace Trees

/-- Removes the rows of a record. -/
def delete (key : String) (t : Trees) : Edit Trees := do
  let records ← t.records.remove key
  let oldValues ← t.oldValues.remove key
  let metadata ← t.metadata.remove key
  return ⟨records, oldValues, metadata⟩

/-- Puts the rows of a record in place of those of its key, from the text of its id, the lengths of
its newest and its older values, and its metadata. The number of its first row is chosen while the
old one is still there. -/
def write (key id : String) (value : Nat) (older : List Nat) (metadata : List (String × String))
    (t : Trees) : Attempt Trees := do
  let records ← t.records.remove key
  let records ← records.insert t.records.nextRow [.text key] [.text id, .blob value]
  let oldValues ← t.oldValues.remove key
  let oldValues ← older.zipIdx.foldlM (fun table (length, version) =>
    table.add [.text key, .number version] [.blob length]) oldValues
  let entries ← t.metadata.remove key
  let entries ← metadata.foldlM (fun table (name, content) =>
    table.add [.text key, .text name] [.text content]) entries
  return ⟨records, oldValues, entries⟩

/-- Replaces the text of a record's id. -/
def setId (key id : String) (value : Nat) (t : Trees) : Edit Trees := do
  return { t with records := ← t.records.set key [.text key, .text id, .blob value] }

end Trees

/-- A change of the file that has not done anything yet. -/
def start (f : PageFile) : Change := ⟨f.space, f.space.count, ∅⟩

/-- Changes the trees, however long the file becomes. -/
def changeFreely (act : Trees → Edit Trees) (f : PageFile) : PageFile :=
  let (trees, c) := (act f.trees).run f.start
  ⟨trees, c.space⟩

/-- Changes the trees, if this is not given up and the file need not become too long for it. -/
def change (limit : Option Nat) (act : Trees → Attempt Trees) (f : PageFile) :
    Except Nat PageFile :=
  match (act f.trees).run.run f.start with
  | (none, _) => .error 0
  | (some trees, c) => (c.finish limit).map fun () => ⟨trees, c.space⟩

end PageFile

end RecordStore
