import RecordStore.Log.Frame

/-!
# Replaying a log

The frames of a log are read one after the other up to the end or to the first that is flawed. What
the entries did, in their order, gives the records.

Model of `replay`, section 13 of the specification.

* `Replay.of` is the reading: the entries, the bytes that were left, and the flaw that ended it.
* `Replay.records` is what the entries did.
* `length_rest_le`: what is left is not longer than what there was.
-/

namespace RecordStore

/-- What the frames of a log hold. -/
structure Replay where
  entries : List Entry
  rest : List UInt8
  flaw : Option Flaw

namespace Replay

/-- The reading of some bytes. -/
def of (bytes : List UInt8) : Replay :=
  if bytes = [] then ⟨[], [], none⟩
  else match h : Frame.next bytes with
    | .error flaw => ⟨[], bytes, some flaw⟩
    | .ok (e, rest) =>
      have := Frame.length_next_lt h
      let more := of rest
      { more with entries := e :: more.entries }
termination_by bytes.length

/-- The records after some entries, from those before. -/
def applyAll (records : Dict Snapshot) (entries : List Entry) : Dict Snapshot :=
  entries.foldl (fun records e => e.operation.apply records) records

/-- The records after all entries. -/
def records (r : Replay) : Dict Snapshot := applyAll ∅ r.entries

theorem length_rest_le (bytes : List UInt8) : (of bytes).rest.length ≤ bytes.length := by
  fun_induction of bytes with
  | case1 => simp
  | case2 => simp
  | case3 bytes _ e rest h _ _ ih =>
    exact Nat.le_trans ih (Nat.le_of_lt (Frame.length_next_lt h))

end Replay

end RecordStore
