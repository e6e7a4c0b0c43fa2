import RecordStore.Proofs.Dict
import RecordStore.Record.Basic

/-!
# Records are rebuilt from what is stored of them

What is stored of a record is all that there is to it: its id and key as they are, its values in
full, and its metadata with the counter written among them. So the record that is rebuilt is the
same record.

* `Metadata.ofDict_toDict`: the counter is read back, whatever number of 64 bits it is.
* `Record.ofSnapshot_snapshot`: **a record with a key is rebuilt from its snapshot.**
* `Snapshot.normalized`: a record as it is served. `Record.snapshot_eq_normalized`: so it is stored
  once it was rebuilt.
* `Record.ofSnapshot_cases`: what can be rebuilt at all, and what comes of it.
  `Record.ofSnapshot_eq_error`: what cannot.
* `Metadata.set_cases`, `Metadata.delete_cases`: what a change of metadata is, when it is made.
-/

namespace RecordStore

namespace Metadata

theorem readCounter_repr {n : Nat} (h : n < 0x10000000000000000) :
    readCounter (some n.repr) = n := by
  rw [readCounter, Option.bind_some, Text.word?_repr h, Option.getD_some]

/-- **Metadata are read back from what is listed.** -/
theorem ofDict_toDict (m : Metadata) : ofDict m.toDict = m := by
  have he : m.toDict.erase counterName = m.entries := by
    refine Std.ExtTreeMap.ext_getElem? fun name => ?_
    rw [toDict, Std.ExtTreeMap.getElem?_erase, Std.ExtTreeMap.getElem?_insert]
    split
    · rename_i h
      rw [← Std.compare_eq_iff_eq.mp h]
      exact (Std.ExtTreeMap.getElem?_eq_none m.not_mem).symm
    · rfl
  have hc : readCounter m.toDict[counterName]? = m.counter := by
    rw [toDict, Std.ExtTreeMap.getElem?_insert_self, readCounter_repr m.counter_lt]
  cases m
  simp only [ofDict, mk.injEq]
  exact ⟨he, hc⟩

/-- What is listed of metadata that were read: the same, and the counter as the number that it was
read as. -/
theorem toDict_ofDict (listed : Dict String) :
    (ofDict listed).toDict =
      listed.insert counterName (readCounter listed[counterName]?).repr := by
  refine Std.ExtTreeMap.ext_getElem? fun name => ?_
  rw [toDict, ofDict, Std.ExtTreeMap.getElem?_insert, Std.ExtTreeMap.getElem?_insert]
  split
  · rfl
  · rename_i h
    rw [Std.ExtTreeMap.getElem?_erase, if_neg h]

variable {m m' : Metadata} {name value : String}

theorem set_cases (h : m.set name value = .ok m') :
    name ≠ counterName ∧ m'.entries = m.entries.insert name value ∧
      m'.counter = next m.counter := by
  unfold set at h
  split at h
  · cases h
  · split at h
    · cases h
    · split at h
      · cases h
      · rename_i hn
        cases h
        exact ⟨hn, rfl, rfl⟩

theorem delete_cases (h : m.delete name = .ok (some m')) :
    name ≠ counterName ∧ m'.entries = m.entries.erase name ∧ m'.counter = next m.counter := by
  unfold delete at h
  split at h
  · cases h
  · split at h
    · cases h
    · rename_i hn
      split at h
      · cases h
        exact ⟨hn, rfl, rfl⟩
      · cases h

end Metadata

/-- A record as it is served: its counter is listed as the number that it was read as. -/
def Snapshot.normalized (r : Snapshot) : Snapshot :=
  { r with
    metadata :=
      r.metadata.insert counterName (Metadata.readCounter r.metadata[counterName]?).repr }

namespace Record

variable {s : Snapshot} {r : Record}

theorem checkKey_of_ne {key : String} (h : key ≠ "") : checkKey key = .ok () := by
  simp [checkKey, h]

/-- **A record with a key is rebuilt from its snapshot.** -/
theorem ofSnapshot_snapshot (h : r.key ≠ "") : ofSnapshot r.snapshot = .ok r := by
  have hv : History.ofList? r.history.values = some r.history := dif_pos r.history.ne_nil
  have hk : r.key.isEmpty = false := by simp [h]
  rw [ofSnapshot_eq_ok hk hv]
  simp only [snapshot, Metadata.ofDict_toDict]

/-- What is stored of a record that was rebuilt is what it was rebuilt from, but for the counter. -/
theorem snapshot_eq_normalized (h : ofSnapshot s = .ok r) : r.snapshot = s.normalized := by
  rw [snapshot_ofSnapshot h, Metadata.toDict_ofDict]
  rfl

/-- A snapshot that belongs to a record has a key and values, and gives all its parts to it. -/
theorem ofSnapshot_cases (h : ofSnapshot s = .ok r) :
    s.key ≠ "" ∧ r.id = s.id ∧ r.key = s.key ∧ r.history.values = s.values ∧
      r.metadata = .ofDict s.metadata := by
  by_cases hk : s.key = ""
  · simp [ofSnapshot, checkKey, hk, bind, Except.bind] at h
  · cases hv : History.ofList? s.values with
    | none =>
      simp [ofSnapshot, checkKey_of_ne hk, hv, bind, Except.bind, throw, throwThe,
        MonadExceptOf.throw] at h
    | some history =>
      rw [ofSnapshot_eq_ok (by simp [hk]) hv, Except.ok.injEq] at h
      subst h
      refine ⟨hk, rfl, rfl, ?_, rfl⟩
      unfold History.ofList? at hv
      split at hv
      · cases hv
        rfl
      · cases hv

/-- **What belongs to no record has no key or no values**, and loading says which. -/
theorem ofSnapshot_eq_error {e : StoreError} (h : ofSnapshot s = .error e) :
    (s.key = "" ∧ e = .emptyKey) ∨
      (s.key ≠ "" ∧ s.values = [] ∧ e = .corruption (.noValues s.key)) := by
  by_cases hk : s.key = ""
  · simp only [ofSnapshot, checkKey, hk] at h
    cases h
    exact .inl ⟨hk, rfl⟩
  · cases hv : History.ofList? s.values with
    | some history =>
      rw [ofSnapshot_eq_ok (by simp [hk]) hv] at h
      cases h
    | none =>
      simp only [ofSnapshot, checkKey_of_ne hk, hv] at h
      cases h
      refine .inr ⟨hk, ?_, rfl⟩
      by_contra hne
      rw [History.ofList?, dif_pos hne] at hv
      cases hv

theorem exists_ofSnapshot_iff :
    (∃ r, ofSnapshot s = .ok r) ↔ s.key ≠ "" ∧ s.values ≠ [] := by
  constructor
  · rintro ⟨r, hr⟩
    obtain ⟨hk, -, -, hv, -⟩ := ofSnapshot_cases hr
    exact ⟨hk, hv ▸ r.history.ne_nil⟩
  · rintro ⟨hk, hv⟩
    exact ⟨_, ofSnapshot_eq_ok (by simp [hk]) (dif_pos hv)⟩

variable {r' : Record} {name value : String}

theorem setMetadata_cases (h : r.setMetadata name value = .ok r') :
    ∃ m, r.metadata.set name value = .ok m ∧ r' = { r with metadata := m } := by
  unfold setMetadata at h
  cases hm : r.metadata.set name value with
  | error e =>
    rw [hm] at h
    cases h
  | ok m =>
    rw [hm] at h
    cases h
    exact ⟨m, rfl, rfl⟩

theorem deleteMetadata_cases (h : r.deleteMetadata name = .ok r') :
    ∃ m, r.metadata.delete name = .ok (some m) ∧ r' = { r with metadata := m } := by
  unfold deleteMetadata at h
  split at h
  · rename_i m hm
    cases h
    exact ⟨m, hm, rfl⟩
  · cases h
  · cases h

end Record

end RecordStore
