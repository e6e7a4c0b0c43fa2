/-!
# Cells

What a row or the key of a row takes of a page. A cell begins with the length of its payload, and
the payload with a code for each field. What is too long for a page goes on in pages of its own,
which form a chain.

* `maxLength`: how long a payload may be.
* `Key`: what cells are ordered by. The cell of a row has the number of the row for its key; the
  key of a row is its own, and ends with that number.
* `Cell.Plan.ofRow`, `Cell.Plan.ofKey` and `Cell.divider`: the cells of rows, of their keys, and
  those between the pages of rows. Lengths count the two bytes that point to the cell.
-/

namespace RecordStore.Pages

/-- The length of a page. -/
def size : Nat := 4096

/-- How long a payload may be. No single text or value may be longer either. -/
def maxLength : Nat := 1000000000

/-- How many bytes a number takes with seven of its bits in each. -/
def varint (n : Nat) : Nat := if n < 0x80 then 1 else varint (n / 0x80) + 1

/-- Some lengths together. -/
def total (lengths : List Nat) : Nat := lengths.foldl (· + ·) 0

/-- A field of a row. Of bytes only their number matters. -/
inductive Field where
  | text (content : String)
  | blob (length : Nat)
  | number (value : Nat)
  deriving DecidableEq

namespace Field

/-- The number that tells the kind of a field and its length, as far as it may be long. -/
def code : Field → Nat
  | text content => 2 * content.utf8ByteSize + 13
  | blob length => 2 * length + 12
  | number _ => 1

/-- The length of the field itself. Zero and one are told by the code. -/
def length : Field → Nat
  | text content => content.utf8ByteSize
  | blob length => length
  | number value =>
    if value < 2 then 0 else if value < 0x80 then 1 else if value < 0x8000 then 2
    else if value < 0x800000 then 3 else if value < 0x80000000 then 4
    else if value < 0x800000000000 then 6 else 8

/-- Whether a field of a key comes before another one of its kind. -/
def precedes : Field → Field → Bool
  | text a, text b => a < b
  | number a, number b => a < b
  | _, _ => false

end Field

/-- What a cell is found by. -/
abbrev Key := List Field

/-- Whether a key comes before another one. -/
def Key.precedes : Key → Key → Bool
  | a :: as, b :: bs => a.precedes b || a = b && Key.precedes as bs
  | _, _ => false

/-- The length of some fields with the codes before them and the length of these. -/
def payload (fields : List Field) : Nat :=
  let codes := total (fields.map fun field => varint field.code)
  codes + varint (codes + 1) + total (fields.map Field.length)

/-- How much of a payload stays on a page, and how many pages of its own the rest takes. -/
structure Split where
  kept : Nat
  chain : Nat

namespace Split

/-- What stays on a page if not everything does, at least. -/
def least : Nat := 489

/-- What a page of a chain holds. -/
def chainCapacity : Nat := 4092

/-- Splits a payload of which at most so much may stay on a page. A chain is pointed to by four
bytes, and is full but for what has to stay. -/
def ofPayload (most payload : Nat) : Split :=
  if payload ≤ most then ⟨payload, 0⟩
  else
    let rest := least + (payload - least) % chainCapacity
    let kept := if rest ≤ most then rest else least
    ⟨kept + 4, (payload - kept + chainCapacity - 1) / chainCapacity⟩

end Split

/-- A cell of a page, with the pages of its chain. -/
structure Cell where
  key : Key
  length : Nat
  chain : List Nat

/-- A cell that has no pages for its chain yet. -/
structure Cell.Plan where
  key : Key
  length : Nat
  chain : Nat

/-- A cell that only tells where a row belongs. -/
def Cell.divider (row : Nat) : Cell := ⟨[.number row], varint row + 2, []⟩

namespace Cell.Plan

/-- The cell of a row. -/
def ofRow (row : Nat) (fields : List Field) : Plan :=
  let payload := payload fields
  let split := Split.ofPayload 4061 payload
  ⟨[.number row], varint payload + varint row + split.kept + 2, split.chain⟩

/-- The cell of a key. -/
def ofKey (key : Key) : Plan :=
  let payload := payload key
  let split := Split.ofPayload 1002 payload
  ⟨key, varint payload + split.kept + 2, split.chain⟩

end Cell.Plan

end RecordStore.Pages
