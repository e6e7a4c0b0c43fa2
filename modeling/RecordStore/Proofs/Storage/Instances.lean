import RecordStore.Proofs.Log.Store
import RecordStore.Proofs.Storage.Atomic
import RecordStore.Storage.Faulty
import RecordStore.Storage.Memory

/-!
# Memory, logs and storages under faults are atomic

Memory never fails. A log changes its records only when the change is in its file, whatever becomes
of the file otherwise. A storage under faults passes calls on or fails without any.
-/

namespace RecordStore

open Storage (write delete flush)

/-! ## Memory -/

instance : Holding MemoryStore Snapshot where
  held s key := s.records[key]?
  form := id

instance : Atomic MemoryStore where
  write_ok _ := Dict.getElem?_insert_eq _ _ _
  write_error h := by cases h
  delete_ok _ := Dict.getElem?_erase_eq _ _
  delete_error h := by cases h
  held_flush _ := rfl
  held_keys _ := rfl
  keys_ok h := by
    cases h
    exact ⟨Dict.nodup_keys _, Dict.mem_keys_iff_isSome _⟩

/-! ## Logs -/

instance : Holding LogStore Snapshot where
  held s key := s.records[key]?
  form := id

namespace LogStore

/-- What is held is what the records say. -/
theorem held_eq {s : LogStore} {d : Dict Snapshot} (h : s.records = d) :
    held s = fun key => d[key]? := by
  rw [← h]
  rfl

theorem held_of_records_eq {s t : LogStore} (h : s.records = t.records) : held s = held t :=
  held_eq h

theorem held_delete_of_error {s : LogStore} {key : String} {e : StoreError}
    (h : (s.delete key).result = .error e) : held (s.delete key).state = held s := by
  rcases delete_cases key s with ⟨-, hd⟩ | ⟨-, fault, hd⟩ | ⟨-, hd⟩
  · rw [hd] at h ⊢
    exact held_of_records_eq (records_record_of_error h)
  · rw [hd]
    rfl
  · rw [hd]
    rfl

theorem held_delete_of_ok {s : LogStore} {key : String} {u : Unit}
    (h : (s.delete key).result = .ok u) :
    held (s.delete key).state = Function.update (held s) key none := by
  rcases delete_cases key s with ⟨-, hd⟩ | ⟨-, fault, hd⟩ | ⟨hk, hd⟩
  · rw [hd] at h ⊢
    exact (held_eq (records_record_of_ok h)).trans (Dict.getElem?_erase_eq _ _)
  · rw [hd] at h
    cases h
  · rw [hd]
    exact (held_eq (Dict.erase_of_not_mem hk).symm).trans (Dict.getElem?_erase_eq _ _)

end LogStore

instance : Atomic LogStore where
  write_ok h := (LogStore.held_eq (LogStore.records_record_of_ok h)).trans
    (Dict.getElem?_insert_eq _ _ _)
  write_error h := LogStore.held_of_records_eq (LogStore.records_record_of_error h)
  delete_ok h := LogStore.held_delete_of_ok h
  delete_error h := LogStore.held_delete_of_error h
  held_flush s := LogStore.held_of_records_eq s.records_flush
  held_keys _ := rfl
  keys_ok h := by
    cases h
    exact ⟨Dict.nodup_keys _, Dict.mem_keys_iff_isSome _⟩

/-! ## Storages under faults -/

/-- A call fails without reaching the storage, or is made. -/
theorem Faulty.call_cases {σ α : Type} (kind : Call) (run : σ → Outcome σ α) (s : Faulty σ) :
    (∃ e, (s.call kind run).result = .error e ∧ (s.call kind run).state.storage = s.storage) ∨
    ((s.call kind run).result = (run s.storage).result ∧
      (s.call kind run).state.storage = (run s.storage).state) := by
  unfold call
  split
  split
  · exact .inl ⟨_, rfl, rfl⟩
  · exact .inr ⟨rfl, rfl⟩

variable {σ δ : Type} [Holding σ δ]

instance : Holding (Faulty σ) δ where
  held s := held s.storage
  form := Holding.form σ

namespace Faulty

variable {α : Type} {kind : Call} {run : σ → Outcome σ α} {s : Faulty σ}

theorem held_eq (s : Faulty σ) : held s = held s.storage := rfl

theorem held_call_of_ok {a : α} (h : (s.call kind run).result = .ok a) :
    (run s.storage).result = .ok a ∧ held (s.call kind run).state = held (run s.storage).state := by
  rcases call_cases kind run s with ⟨e, he, -⟩ | ⟨hr, hs⟩
  · rw [he] at h
    cases h
  · exact ⟨hr ▸ h, by rw [held_eq, hs]⟩

theorem held_call_of_error
    (hrun : ∀ e, (run s.storage).result = .error e → held (run s.storage).state = held s.storage)
    {e : StoreError} (h : (s.call kind run).result = .error e) :
    held (s.call kind run).state = held s := by
  rcases call_cases kind run s with ⟨e, -, hs⟩ | ⟨hr, hs⟩
  · rw [held_eq, hs, held_eq]
  · rw [held_eq, hs, hrun e (hr ▸ h), held_eq]

theorem held_call (hrun : held (run s.storage).state = held s.storage) :
    held (s.call kind run).state = held s := by
  rcases call_cases kind run s with ⟨e, -, hs⟩ | ⟨-, hs⟩
  · rw [held_eq, hs, held_eq]
  · rw [held_eq, hs, hrun, held_eq]

/-- The keys are those of the records loaded. -/
theorem exists_load_of_keys [Storage σ] {listed : List String}
    (h : (Storage.keys s).result = .ok listed) :
    ∃ rs, (Storage.load s.storage).result = .ok rs ∧ rs.map Snapshot.key = listed := by
  cases hl : (s.call .load Storage.load).result with
  | error e =>
    have hk : (Storage.keys s).result = .error e := congrArg (Except.map _) hl
    rw [hk] at h
    cases h
  | ok rs =>
    have hk : (Storage.keys s).result = .ok (rs.map Snapshot.key) := congrArg (Except.map _) hl
    rw [hk] at h
    cases h
    rcases call_cases .load Storage.load s with ⟨e, he, -⟩ | ⟨hr, -⟩
    · rw [he] at hl
      cases hl
    · exact ⟨rs, hr ▸ hl, rfl⟩

end Faulty

instance [Storage σ] [Atomic σ] [Loads σ] : Atomic (Faulty σ) where
  write_ok h := by
    obtain ⟨hr, hs⟩ := Faulty.held_call_of_ok h
    exact hs.trans (Atomic.write_ok hr)
  write_error h := Faulty.held_call_of_error (fun _ => Atomic.write_error) h
  delete_ok h := by
    obtain ⟨hr, hs⟩ := Faulty.held_call_of_ok h
    exact hs.trans (Atomic.delete_ok hr)
  delete_error h := Faulty.held_call_of_error (fun _ => Atomic.delete_error) h
  held_flush s := Faulty.held_call (Atomic.held_flush s.storage)
  held_keys s := Faulty.held_call (Loads.held_load s.storage)
  keys_ok {s _} h := by
    obtain ⟨rs, hl, rfl⟩ := Faulty.exists_load_of_keys h
    exact @Loads.load_ok σ δ _ _ _ s.storage rs hl

end RecordStore
