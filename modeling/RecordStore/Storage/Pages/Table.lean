import RecordStore.Storage.Pages.Tree

/-!
# Tables

A table has a tree of its rows, by number, and one of their keys. A row gets the number after the
last one. All rows of a record are found by the text their keys begin with. A row is refused if it
is too long, or its key is.
-/

namespace RecordStore.Pages

/-- The rows of a table and their keys. -/
structure Table where
  rows : Tree
  index : Tree

namespace Table

/-- A table without rows, with roots at a page and the next one. -/
def rooted (page : Nat) : Table := ⟨.rooted .rows page, .rooted .keys (page + 1)⟩

/-- The number for the next row. -/
def nextRow (t : Table) : Nat := t.rows.lastRow + 1

/-- Adds a row under its number, from the fields of its key and the others. -/
def insert (row : Nat) (key others : List Field) (t : Table) : Attempt Table := do
  guard (payload (key ++ [.number row]) ≤ maxLength ∧ payload (key ++ others) ≤ maxLength)
  let index ← t.index.insert (.ofKey (key ++ [.number row]))
  let rows ← t.rows.insert (.ofRow row (key ++ others))
  return ⟨rows, index⟩

/-- Adds a row. -/
def add (key others : List Field) (t : Table) : Attempt Table := t.insert t.nextRow key others

/-- Removes a row. Its key ends with its number, which is the key of its cell. -/
def removeRow (t : Table) (key : Key) : Edit Table := do
  let rows ← t.rows.remove key.getLast?.toList
  let index ← t.index.remove key
  return ⟨rows, index⟩

/-- Removes the rows of a record, in the order of their keys. -/
def remove (record : String) (t : Table) : Edit Table :=
  (t.index.entries record).foldlM removeRow t

/-- Sets the fields of a record's only row. -/
def set (record : String) (fields : List Field) (t : Table) : Edit Table :=
  match (t.index.entries record).head?.bind List.getLast? with
  | some (.number row) => return { t with rows := ← t.rows.replace (.ofRow row fields) }
  | _ => return t

end Table

end RecordStore.Pages
