import RecordStore.Dict
import RecordStore.Error
import RecordStore.Text.Decimal

/-!
# Metadata

A record's metadata are named texts and a counter. The counter is a number of 64 bits. It starts at
one and grows by one with every change of the record; it is shown among the entries under the name
`Version`, which no entry may take.

Model of `MetadataMap`, section 4.2 of the specification: `bump` is `bump_version`, `toDict` is
`list_all` and `ofDict` is `from_entries`.

* `set`, `delete`, `bump`: the three changes. Each takes the counter to the `next` number.
* `toDict`: the entries with the counter among them. `ofDict` is its inverse, and reads a counter
  that is missing or no number of 64 bits as one.
* `size_toDict`: what is listed is one more than what is kept.
-/

namespace RecordStore

/-- The name under which the counter is shown. -/
def counterName : String := "Version"

/-- Named texts and the counter of changes. -/
structure Metadata where
  entries : Dict String
  counter : Nat
  counter_lt : counter < 0x10000000000000000
  not_mem : counterName ∉ entries
  deriving DecidableEq

namespace Metadata

/-- No entries, and the counter at one. -/
def empty : Metadata := ⟨∅, 1, by decide, Std.ExtTreeMap.not_mem_empty⟩

instance : EmptyCollection Metadata := ⟨empty⟩

instance : Inhabited Metadata := ⟨empty⟩

/-- The number that a listed counter stands for. -/
def readCounter (text : Option String) : Nat :=
  (text.bind fun t => Text.word? t.toList).getD 1

theorem readCounter_lt (text : Option String) : readCounter text < 0x10000000000000000 := by
  unfold readCounter
  cases h : text.bind fun t => Text.word? t.toList with
  | none => decide
  | some n =>
    obtain ⟨t, -, ht⟩ := Option.bind_eq_some_iff.mp h
    exact of_decide_eq_true (Option.filter_eq_some_iff.mp ht).2

/-- The metadata that are listed like this. -/
def ofDict (listed : Dict String) : Metadata :=
  ⟨listed.erase counterName, readCounter listed[counterName]?, readCounter_lt _, by simp⟩

/-- The entries with the counter among them. -/
def toDict (m : Metadata) : Dict String :=
  m.entries.insert counterName m.counter.repr

/-- The number after a counter. The greatest number of 64 bits is followed by zero. -/
def next (counter : Nat) : Nat := (counter + 1) % 0x10000000000000000

theorem next_lt (counter : Nat) : next counter < 0x10000000000000000 :=
  Nat.mod_lt _ (by decide)

theorem next_of_lt {counter : Nat} (h : counter + 1 < 0x10000000000000000) :
    next counter = counter + 1 :=
  Nat.mod_eq_of_lt h

/-- Sets an entry and counts the change. -/
def set (m : Metadata) (name value : String) : Except StoreError Metadata :=
  if name.isEmpty then .error .emptyKey
  else if value.isEmpty then .error .emptyValue
  else if h : name = counterName then .error (.reservedMetadataKey name)
  else .ok ⟨m.entries.insert name value, next m.counter, next_lt _, by simp [h, m.not_mem]⟩

/-- Removes an entry and counts the change; `none` if there is no such entry. -/
def delete (m : Metadata) (name : String) : Except StoreError (Option Metadata) :=
  if name.isEmpty then .error .emptyKey
  else if name = counterName then .error (.reservedMetadataKey name)
  else if name ∈ m.entries then
    .ok (some ⟨m.entries.erase name, next m.counter, next_lt _, by simp [m.not_mem]⟩)
  else .ok none

/-- Counts a change of the record. -/
def bump (m : Metadata) : Metadata :=
  { m with counter := next m.counter, counter_lt := next_lt _ }

/-- What is listed under a name. -/
def get? (m : Metadata) (name : String) : Option String :=
  if name = counterName then some m.counter.repr else m.entries[name]?

/-- The number of entries listed. -/
def size (m : Metadata) : Nat := m.entries.size + 1

theorem size_toDict (m : Metadata) : m.toDict.size = m.size := by
  simp [toDict, size, Std.ExtTreeMap.size_insert, m.not_mem]

theorem getElem?_toDict (m : Metadata) (name : String) : m.toDict[name]? = m.get? name := by
  by_cases h : name = counterName
  · simp [toDict, get?, h]
  · simp [toDict, get?, h, Ne.symm h, Std.ExtTreeMap.getElem?_insert]

end Metadata

end RecordStore
