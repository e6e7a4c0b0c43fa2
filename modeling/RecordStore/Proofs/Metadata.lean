import RecordStore.Proofs.Record.Rebuilt

/-!
# What metadata show goes together

The counter is kept apart from the entries and shown among them. That is one entry more than is kept
and never two, because no entry is kept under the name of the counter, however the metadata were
made and whatever was done to them. And the counter counts every change that was made, and no call
that was refused or found nothing to delete.

* `Built`: how metadata are made, and where their counter begins.
* `MetadataCall`, `Metadata.call`, `Metadata.callAll`: the calls that may change metadata.
* `Allowed`: the calls that do. `call_of_allowed`, `call_of_not_allowed`: what they do then, and
  that any other leaves the metadata alone.
* `Shown`: how what is listed, found and counted goes together.
* `shown_callAll`: **so it does after any calls, and the counter has counted those that were made.**
-/

namespace RecordStore

/-- A call that may change metadata. -/
inductive MetadataCall where
  | set (name value : String)
  | delete (name : String)
  | bump
  deriving DecidableEq, Repr

namespace MetadataCall

/-- What becomes of the entries when a call is made. -/
def edit : MetadataCall → Dict String → Dict String
  | set name value, kept => kept.insert name value
  | delete name, kept => kept.erase name
  | bump, kept => kept

end MetadataCall

namespace Metadata

/-- The answer to a call. It is the number that the counter has come to, or none if there was
nothing to delete. -/
abbrev Answer : Type := Except StoreError (Option Nat)

/-- Whether something was changed. -/
def Answer.counts : Answer → Bool
  | .ok (some _) => true
  | _ => false

/-- The answer to a call, and the metadata after it. -/
def call (m : Metadata) : MetadataCall → Answer × Metadata
  | .set name value =>
    match m.set name value with
    | .ok after => (.ok (some after.counter), after)
    | .error e => (.error e, m)
  | .delete name =>
    match m.delete name with
    | .ok (some after) => (.ok (some after.counter), after)
    | .ok none => (.ok none, m)
    | .error e => (.error e, m)
  | .bump => (.ok (some m.bump.counter), m.bump)

/-- The answers to some calls in turn, and the metadata after them. -/
def callAll (m : Metadata) : List MetadataCall → List Answer × Metadata
  | [] => ([], m)
  | first :: calls =>
    let (answer, after) := m.call first
    let (answers, after) := after.callAll calls
    (answer :: answers, after)

/-- How many of some calls changed something. -/
def changes (m : Metadata) (calls : List MetadataCall) : Nat :=
  (m.callAll calls).1.countP Answer.counts

/-- How metadata are made, with no entries or as they are listed, and where their counter begins. -/
inductive Built : Metadata → Nat → Prop
  | new : Built ∅ 1
  | listed {listed : Dict String} {n : Nat} (counts : CountsFrom listed[counterName]? n) :
    Built (ofDict listed) n

/-- The calls that change something. -/
inductive Allowed (m : Metadata) : MetadataCall → Prop
  | set {name value : String} (name_ne : name ≠ "") (value_ne : value ≠ "")
    (not_counter : name ≠ counterName) : Allowed m (.set name value)
  | delete {name : String} (name_ne : name ≠ "") (not_counter : name ≠ counterName)
    (mem : name ∈ m.toDict) : Allowed m (.delete name)
  | bump : Allowed m .bump

variable {m : Metadata} {c : MetadataCall}

theorem Built.counter_eq {n : Nat} (h : Built m n) : m.counter = n := by
  cases h with
  | new => rfl
  | listed hc => exact readCounter_eq_iff.mpr hc

/-- An entry is listed when it is kept, unless it is the counter. -/
theorem mem_toDict_iff {name : String} (h : name ≠ counterName) :
    name ∈ m.toDict ↔ name ∈ m.entries := by
  rw [← Std.ExtTreeMap.isSome_getElem?_iff_mem, getElem?_toDict, get?, if_neg h,
    Std.ExtTreeMap.isSome_getElem?_iff_mem]

/-! ## One call -/

/-- A call that is allowed is answered with the next number, and makes its change. -/
theorem call_of_allowed (h : m.Allowed c) :
    (m.call c).1 = .ok (some (next m.counter)) ∧ (m.call c).2.counter = next m.counter ∧
      (m.call c).2.entries = c.edit m.entries := by
  cases h with
  | set hn hv hc => simp [call, set, hn, hv, hc, MetadataCall.edit]
  | delete hn hc hm => simp [call, delete, hn, hc, (mem_toDict_iff hc).mp hm, MetadataCall.edit]
  | bump => exact ⟨rfl, rfl, rfl⟩

/-- Any other call changes nothing. -/
theorem call_of_not_allowed (h : ¬ m.Allowed c) :
    (m.call c).1.counts = false ∧ (m.call c).2 = m := by
  cases c with
  | set name value =>
    cases hs : m.set name value with
    | error e => simp [call, hs, Answer.counts]
    | ok after =>
      unfold set at hs
      split_ifs at hs with hn hv hc
      exact absurd (.set (by simpa using hn) (by simpa using hv) hc) h
  | delete name =>
    cases hd : m.delete name with
    | error e => simp [call, hd, Answer.counts]
    | ok deleted =>
      cases deleted with
      | none => simp [call, hd, Answer.counts]
      | some after =>
        unfold delete at hd
        split_ifs at hd with hn hc hm
        · exact absurd (.delete (by simpa using hn) hc ((mem_toDict_iff hc).mpr hm)) h
        · cases hd
  | bump => exact absurd .bump h

/-- The calls that are allowed are those that count. -/
theorem counts_call_iff : (m.call c).1.counts = true ↔ m.Allowed c := by
  by_cases h : m.Allowed c
  · simp [h, (call_of_allowed h).1, Answer.counts]
  · simp [h, (call_of_not_allowed h).1]

/-! ## Any calls -/

/-- **The counter has counted the changes**, as long as there are numbers for them. -/
theorem counter_callAll (calls : List MetadataCall)
    (h : m.counter + m.changes calls < 0x10000000000000000) :
    (m.callAll calls).2.counter = m.counter + m.changes calls := by
  induction calls generalizing m with
  | nil => rfl
  | cons c calls ih =>
    have hsum : m.changes (c :: calls) =
        (m.call c).2.changes calls + if (m.call c).1.counts then 1 else 0 := List.countP_cons
    have hrest : (m.callAll (c :: calls)).2 = ((m.call c).2.callAll calls).2 := rfl
    rw [hsum] at h ⊢
    rw [hrest]
    by_cases hc : m.Allowed c
    · obtain ⟨-, hcounter, -⟩ := call_of_allowed hc
      rw [if_pos (counts_call_iff.mpr hc)] at h ⊢
      rw [next_of_lt (by omega)] at hcounter
      rw [ih (by omega), hcounter]
      omega
    · obtain ⟨hcounts, hsame⟩ := call_of_not_allowed hc
      rw [hcounts, hsame] at h ⊢
      exact ih h

/-- How what metadata list, find and count goes together. -/
structure Shown (m : Metadata) : Prop where
  /-- What is found under a name is what is listed under it, -/
  get?_eq : ∀ name, m.get? name = m.toDict[name]?
  /-- and as many entries are counted as are listed. -/
  size_eq : m.size = m.toDict.toList.length
  /-- The counter is listed in plain decimal, -/
  counter_eq : m.toDict[counterName]? = some m.counter.repr
  /-- and what is listed tells the metadata. -/
  ofDict_toDict : ofDict m.toDict = m

/-- It does where no entry has the name of the counter. -/
theorem shown (m : Metadata) : m.Shown where
  get?_eq name := (m.getElem?_toDict name).symm
  size_eq := by rw [Std.ExtTreeMap.length_toList, size_toDict]
  counter_eq := by rw [getElem?_toDict, get?, if_pos rfl]
  ofDict_toDict := m.ofDict_toDict

/-- **What metadata show goes together after any calls**, and the counter is where it began and the
changes that were made. One more call is a change just when it is allowed: it is answered with the
next number then, if there is one, and any other call leaves entries and counter as they are. -/
theorem shown_callAll {first : Metadata} {n : Nat} (built : Built first n)
    (calls : List MetadataCall) (lt : n + first.changes calls < 0x10000000000000000) :
    let m := (first.callAll calls).2
    m.Shown ∧ m.counter = n + first.changes calls ∧
    (∀ c, (m.call c).1.counts = true ↔ m.Allowed c) ∧
    (∀ c, m.Allowed c → m.counter + 1 < 0x10000000000000000 →
      (m.call c).1 = .ok (some (m.counter + 1)) ∧ (m.call c).2.counter = m.counter + 1 ∧
        (m.call c).2.entries = c.edit m.entries) ∧
    ∀ c, (m.call c).1.counts = false → (m.call c).2 = m := by
  intro m
  obtain rfl := built.counter_eq
  refine ⟨m.shown, counter_callAll calls lt, fun c => counts_call_iff, fun c hc hnext => ?_,
    fun c hc => ?_⟩
  · rw [← next_of_lt hnext]
    exact call_of_allowed hc
  · refine (call_of_not_allowed fun hallowed => ?_).2
    rw [counts_call_iff.mpr hallowed] at hc
    cases hc

/-- An entry without a name is kept as it is listed, but is not deleted. -/
theorem shown_callAll_nameless :
    let first := ofDict (.ofList [("", ""), ("Version", "+007")])
    let calls := [.set "a" "", .set "a" "1", .delete "", .delete "b", .bump, .delete "a",
      .set "Version" "9"]
    let m := (first.callAll calls).2
    m.Shown ∧ m.counter = 10 ∧ m.get? "" = some "" := by
  intro first calls m
  have hbuilt : Built first 7 := .listed (readCounter_eq_iff.mp (by decide +kernel))
  have hchanges : first.changes calls = 3 := by decide +kernel
  obtain ⟨hshown, hcounter, -⟩ := shown_callAll hbuilt calls (by rw [hchanges]; decide)
  exact ⟨hshown, by rw [hcounter, hchanges], by decide +kernel⟩

end Metadata

end RecordStore
