import Std.Data.ExtTreeMap

/-!
# Dictionaries

Finite maps from texts, kept in the order of their keys. Texts are ordered by code point, which is
the order of their UTF-8 bytes. Two dictionaries with the same entries are equal.

* `Dict.mem_insert_iff`: which keys there are after one was added.
-/

namespace RecordStore

/-- A finite map from texts, in ascending order of keys. -/
abbrev Dict (α : Type) : Type := Std.ExtTreeMap String α

theorem Dict.mem_insert_iff {α : Type} {d : Dict α} {key k : String} {value : α} :
    k ∈ d.insert key value ↔ k = key ∨ k ∈ d := by
  rw [Std.ExtTreeMap.mem_insert, Std.compare_eq_iff_eq, eq_comm]

end RecordStore
