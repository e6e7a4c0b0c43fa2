import RecordStore.Error
import RecordStore.Text.Blank
import RecordStore.Text.Decimal

/-!
# Value histories

A history holds every value that a record has had, oldest first, and is never empty. Versions count
from zero, so the version of the current value is one less than the number of values.

Model of `ValueHistory` and `VersionSelector`, section 4.1 of the specification.

* `Version`: which version is asked for, by number or as the latest; read by `Version.parse` and
  written by `Version.toText`.
* `History.append`: adds a version. Every earlier version is still there under its number
  (`at?_append_of_lt`), and the new one comes next (`at?_append_length`).
* `History.get`: the value of a version, or `outOfRange`.
-/

namespace RecordStore

/-- Bytes, as stored and as asked for. -/
abbrev Bytes : Type := List UInt8

/-- Which version of a value is asked for. -/
inductive Version where
  | latest
  | number (index : UInt64)
  deriving DecidableEq, Repr

namespace Version

/-- `latest`, or the number in decimal. -/
def toText : Version → String
  | latest => "latest"
  | number n => n.toNat.repr

instance : ToString Version := ⟨toText⟩

/-- The version that a text names: `latest` in any ASCII case or a number of 64 bits, with blanks
around it or not. -/
def parse (text : String) : Except StoreError Version :=
  let cs := Text.trim text.toList
  if cs.map Char.toLower = "latest".toList then .ok latest
  else match Text.word? cs with
    | some n => .ok (number (UInt64.ofNat n))
    | none => .error (.invalidVersion text)

end Version

/-- Every value that a record has had, oldest first. -/
structure History where
  values : List Bytes
  ne_nil : values ≠ []
  deriving DecidableEq

namespace History

/-- The history of one value. -/
def single (value : Bytes) : History := ⟨[value], by simp⟩

instance : Inhabited History := ⟨single []⟩

/-- The history of these values, if there are any. -/
def ofList? (values : List Bytes) : Option History :=
  if h : values ≠ [] then some ⟨values, h⟩ else none

/-- Adds a version. -/
def append (h : History) (value : Bytes) : History :=
  ⟨h.values ++ [value], by simp⟩

/-- The number of versions. -/
def length (h : History) : Nat := h.values.length

/-- The number of the current version. -/
def current (h : History) : Nat := h.length - 1

/-- The current value. -/
def latest (h : History) : Bytes := h.values.getLast h.ne_nil

/-- The value of a version. -/
def at? (h : History) (index : Nat) : Option Bytes := h.values[index]?

/-- The value that is asked for. -/
def get (h : History) : Version → Except StoreError Bytes
  | .latest => .ok h.latest
  | .number n => match h.at? n.toNat with
    | some value => .ok value
    | none => .error (.outOfRange n.toNat h.length)

theorem length_pos (h : History) : 0 < h.length :=
  List.length_pos_iff.mpr h.ne_nil

@[simp]
theorem length_append (h : History) (value : Bytes) : (h.append value).length = h.length + 1 := by
  simp [append, length]

@[simp]
theorem current_append (h : History) (value : Bytes) : (h.append value).current = h.length := by
  simp [current]

@[simp]
theorem latest_append (h : History) (value : Bytes) : (h.append value).latest = value := by
  simp [append, latest]

theorem at?_append_of_lt {h : History} {i : Nat} (hi : i < h.length) (value : Bytes) :
    (h.append value).at? i = h.at? i :=
  List.getElem?_append_left hi

@[simp]
theorem at?_append_length (h : History) (value : Bytes) :
    (h.append value).at? h.length = some value := by
  simp [append, at?, length]

end History

end RecordStore
