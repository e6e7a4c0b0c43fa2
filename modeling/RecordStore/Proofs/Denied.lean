import RecordStore.Proofs.Query
import RecordStore.Proofs.Request

/-!
# Why requests are denied

A request is about a key or it is a search. What it asks is checked against the key, then against
the record that is found under it, and then against what this record holds; a query is checked while
it is read. It is denied with the error of the first check that it does not pass, and otherwise it
is answered.

* `Request.name?`: the metadata entry that a request is about.
* `Record.Denied`: what a record denies. `Container.Denied`: what is denied at all.
* `Container.answer_eq_error_iff`: **a request fails with an error just when this is how it is
  denied.**
-/

namespace RecordStore

namespace Request

/-- The metadata entry that a request is about, if it is about one. -/
def name? : Request → Option String
  | setMetadata _ name _ => some name
  | getMetadata _ name => some name
  | deleteMetadata _ name => some name
  | _ => none

/-- Whether a request creates the record of its key if there is none. -/
def creates : Request → Bool
  | set .. => true
  | _ => false

end Request

/-! ## What records deny -/

namespace Record

/-- What a record denies, and the error with which it does. -/
inductive Denied (r : Record) : Request → StoreError → Prop
  /-- There is no such version. -/
  | beyond (key : String) (n : UInt64) (le : r.history.length ≤ n.toNat) :
    Denied r (.get key (.number n)) (.outOfRange n.toNat r.history.length)
  /-- No entry has an empty name, -/
  | nameless (request : Request) (name_eq : request.name? = some "") : Denied r request .emptyKey
  /-- nor an empty value. -/
  | valueless (key name : String) (name_ne : name ≠ "") :
    Denied r (.setMetadata key name "") .emptyValue
  /-- The counter is not set -/
  | setCounter (key value : String) (value_ne : value ≠ "") :
    Denied r (.setMetadata key counterName value) (.reservedMetadataKey counterName)
  /-- and not removed. -/
  | deleteCounter (key : String) :
    Denied r (.deleteMetadata key counterName) (.reservedMetadataKey counterName)
  /-- What is read must be listed, -/
  | unlisted (key name : String) (name_ne : name ≠ "") (get_eq : r.metadata.get? name = none) :
    Denied r (.getMetadata key name) (.metadataKeyNotFound r.key name)
  /-- and what is removed must be there. -/
  | missing (key name : String) (name_ne : name ≠ "") (get_eq : r.metadata.get? name = none) :
    Denied r (.deleteMetadata key name) (.metadataKeyNotFound r.key name)

variable {r : Record} {key name value : String} {version : Version} {e : StoreError}

/-- Of these requests a record denies none. -/
theorem not_denied {request : Request} (h : request = .delete key ∨ request = .listMetadata key ∨
    ∃ value fresh, request = .set key value fresh) : ¬ r.Denied request e := by
  intro hd
  rcases h with rfl | rfl | ⟨value, fresh, rfl⟩
  all_goals
    cases hd with
    | nameless _ hn => cases hn

theorem get_eq_error_iff : r.get version = .error e ↔ r.Denied (.get key version) e := by
  constructor
  · intro h
    cases version with
    | latest => cases h
    | number n =>
      cases hat : r.history.at? n.toNat with
      | some bytes =>
        simp only [get, History.get, hat] at h
        cases h
      | none =>
        simp only [get, History.get, hat] at h
        cases h
        exact .beyond key n (List.getElem?_eq_none_iff.mp hat)
  · intro h
    cases h with
    | beyond _ n hle =>
      have hat : r.history.at? n.toNat = none := List.getElem?_eq_none hle
      simp only [get, History.get, hat]
    | nameless _ hn => cases hn

theorem setMetadata_eq_error_iff :
    r.setMetadata name value = .error e ↔ r.Denied (.setMetadata key name value) e := by
  constructor
  · intro h
    unfold setMetadata Metadata.set at h
    split at h
    · rename_i hn
      cases h
      exact .nameless _ (congrArg some (String.isEmpty_iff.mp hn))
    · rename_i hn
      split at h
      · rename_i hv
        obtain rfl := String.isEmpty_iff.mp hv
        cases h
        exact .valueless key name (mt String.isEmpty_iff.mpr hn)
      · rename_i hv
        split at h
        · rename_i hc
          subst hc
          cases h
          exact .setCounter key value (mt String.isEmpty_iff.mpr hv)
        · cases h
  · intro h
    cases h with
    | nameless _ hn =>
      cases hn
      rfl
    | valueless _ _ hn => simp [setMetadata, Metadata.set, hn, Except.map]
    | setCounter _ _ hv => simp [setMetadata, Metadata.set, counterName, hv, Except.map]

theorem getMetadata_eq_error_iff :
    r.getMetadata name = .error e ↔ r.Denied (.getMetadata key name) e := by
  constructor
  · intro h
    unfold getMetadata at h
    split at h
    · rename_i hn
      cases h
      exact .nameless _ (congrArg some (String.isEmpty_iff.mp hn))
    · rename_i hn
      split at h
      · cases h
      · rename_i hget
        cases h
        exact .unlisted key name (mt String.isEmpty_iff.mpr hn) hget
  · intro h
    cases h with
    | nameless _ hn =>
      cases hn
      rfl
    | unlisted _ _ hn hget => simp [getMetadata, hn, hget]

theorem deleteMetadata_eq_error_iff :
    r.deleteMetadata name = .error e ↔ r.Denied (.deleteMetadata key name) e := by
  constructor
  · intro h
    unfold deleteMetadata Metadata.delete at h
    by_cases hn : name = ""
    · subst hn
      cases h
      exact .nameless _ rfl
    · by_cases hc : name = counterName
      · subst hc
        cases h
        exact .deleteCounter key
      · by_cases hm : name ∈ r.metadata.entries
        · simp [hn, hc, hm] at h
        · simp only [String.isEmpty_iff, hn, hc, hm, if_false] at h
          cases h
          refine .missing key name hn ?_
          rw [Metadata.get?, if_neg hc, Std.ExtTreeMap.getElem?_eq_none hm]
  · intro h
    cases h with
    | nameless _ hn =>
      cases hn
      rfl
    | deleteCounter => rfl
    | missing _ _ hn hget =>
      have hc : name ≠ counterName := by
        rintro rfl
        simp [Metadata.get?] at hget
      have hm : name ∉ r.metadata.entries := by
        rw [Metadata.get?, if_neg hc] at hget
        simpa using hget
      simp [deleteMetadata, Metadata.delete, hn, hc, hm]

end Record

/-! ## What is denied -/

namespace Container

/-- How a request is denied. -/
inductive Denied (c : Container) : Request → StoreError → Prop
  /-- The key that it is about is empty. -/
  | keyless (request : Request) (key_eq : request.key? = some "") : Denied c request .emptyKey
  /-- There is no record, and none would be created. -/
  | absent (request : Request) (key : String) (key_eq : request.key? = some key) (ne : key ≠ "")
    (creates_eq : request.creates = false) (get_eq : c.get? key = none) :
    Denied c request (.keyNotFound key)
  /-- The record denies it. -/
  | record (request : Request) (key : String) (r : Record) (e : StoreError)
    (key_eq : request.key? = some key) (ne : key ≠ "") (get_eq : c.get? key = some r)
    (denied : r.Denied request e) : Denied c request e
  /-- It is no query. -/
  | malformed (text : String) (fault : QueryFault)
    (parse_eq : Query.parse text = .error (.invalidQuery fault)) :
    Denied c (.findByMetadata text) (.invalidQuery fault)

variable {c : Container} {key : String} {request : Request} {e : StoreError}

theorem denied_cases (hk : request.key? = some key) (h : c.Denied request e) :
    (key = "" ∧ e = .emptyKey) ∨
    (key ≠ "" ∧ c.get? key = none ∧ e = .keyNotFound key ∧ request.creates = false) ∨
    ∃ r, key ≠ "" ∧ c.get? key = some r ∧ r.Denied request e := by
  cases h with
  | keyless _ hk' =>
    rw [hk'] at hk
    cases hk
    exact .inl ⟨rfl, rfl⟩
  | absent _ _ hk' hne hcreates hget =>
    rw [hk'] at hk
    cases hk
    exact .inr (.inl ⟨hne, hget, rfl, hcreates⟩)
  | record _ _ r _ hk' hne hget hd =>
    rw [hk'] at hk
    cases hk
    exact .inr (.inr ⟨r, hne, hget, hd⟩)
  | malformed => cases hk

/-- A search is denied only for what it asks. -/
theorem denied_search (hk : request.key? = none) (h : c.Denied request e) :
    ∃ text fault, request = .findByMetadata text ∧ e = .invalidQuery fault ∧
      Query.parse text = .error (.invalidQuery fault) := by
  cases h with
  | keyless _ hk' =>
    rw [hk'] at hk
    cases hk
  | absent _ _ hk' =>
    rw [hk'] at hk
    cases hk
  | record _ _ _ _ hk' =>
    rw [hk'] at hk
    cases hk
  | malformed text fault hp => exact ⟨text, fault, rfl, rfl, hp⟩

/-- A request about a record that must be there is denied as the checks of its key and of the record
say. -/
theorem eq_error_iff_denied (hk : request.key? = some key) (hcreates : request.creates = false)
    {result : Except StoreError Reply}
    (hempty : key = "" → result = .error .emptyKey)
    (hnone : key ≠ "" → c.get? key = none → result = .error (.keyNotFound key))
    (hsome : ∀ r, key ≠ "" → c.get? key = some r → (result = .error e ↔ r.Denied request e)) :
    result = .error e ↔ c.Denied request e := by
  constructor
  · intro h
    by_cases hne : key = ""
    · rw [hempty hne] at h
      cases h
      exact .keyless request (hne ▸ hk)
    · cases hr : c.get? key with
      | none =>
        rw [hnone hne hr] at h
        cases h
        exact .absent request key hk hne hcreates hr
      | some r => exact .record request key r e hk hne hr ((hsome r hne hr).mp h)
  · intro h
    rcases denied_cases hk h with ⟨hne, rfl⟩ | ⟨hne, hr, rfl, -⟩ | ⟨r, hne, hr, hd⟩
    · exact hempty hne
    · exact hnone hne hr
    · exact (hsome r hne hr).mpr hd

/-- What is asked of a record that must be there is asked of the record, if it is. -/
theorem bind_require_eq_error_iff (hk : request.key? = some key)
    (hcreates : request.creates = false) {ask : Record → Except StoreError Reply}
    (hask : ∀ r, ask r = .error e ↔ r.Denied request e) :
    (c.require key).bind ask = .error e ↔ c.Denied request e := by
  refine eq_error_iff_denied hk hcreates (fun hne => ?_) (fun hne hr => ?_) fun r hne hr => ?_
  · rw [hne]
    rfl
  · rw [require_of_get?_none hne hr]
    rfl
  · rw [require_of_get? hne hr]
    exact hask r

theorem require_eq_error_iff (hk : request.key? = some key) (hcreates : request.creates = false)
    (hnever : ∀ r : Record, ¬ r.Denied request e) :
    c.require key = .error e ↔ c.Denied request e := by
  have h : (c.require key).bind (fun _ => .ok Reply.done) = .error e ↔ c.Denied request e :=
    bind_require_eq_error_iff hk hcreates fun r => ⟨nofun, fun hd => absurd hd (hnever r)⟩
  rw [← h]
  cases c.require key <;> simp [Except.bind]

/-- And so it is with what is changed of it. -/
theorem update_counted_eq_error_iff (hk : request.key? = some key)
    (hcreates : request.creates = false) {change : Record → Except StoreError Record}
    (hchange : ∀ r, change r = .error e ↔ r.Denied request e) :
    (c.update key (counted change)).1 = .error e ↔ c.Denied request e := by
  refine eq_error_iff_denied hk hcreates (fun hne => ?_) (fun hne hr => ?_) fun r hne hr => ?_
  · rw [hne]
    rfl
  · simp only [update, Record.checkKey_of_ne hne, modify, hr]
  · simp only [update, Record.checkKey_of_ne hne, modify, hr, ← hchange r, counted]
    cases change r <;> simp

/-- A value that is given to a key is taken. -/
theorem exists_answer_set (c : Container) (hne : key ≠ "") (value : Bytes) (fresh : Id) :
    ∃ reply, (c.answer (.set key value fresh)).1 = .ok reply := by
  have hk := Record.checkKey_of_ne hne
  cases hr : c.get? key with
  | none =>
    simp only [answer, upsert, hk, hr, create_eq hne, Except.map, checkEntry, if_true]
    exact ⟨_, rfl⟩
  | some r =>
    simp only [answer, upsert, hk, hr]
    exact ⟨_, rfl⟩

/-- **A request fails with an error just when this is how it is denied.** -/
theorem answer_eq_error_iff : (c.answer request).1 = .error e ↔ c.Denied request e := by
  cases request with
  | get key version =>
    refine bind_require_eq_error_iff rfl rfl fun r => ?_
    rw [map_eq_error_iff, Record.get_eq_error_iff]
  | getMetadata key name =>
    refine bind_require_eq_error_iff rfl rfl fun r => ?_
    rw [map_eq_error_iff, Record.getMetadata_eq_error_iff]
  | setMetadata key name value =>
    exact update_counted_eq_error_iff rfl rfl fun r => Record.setMetadata_eq_error_iff
  | deleteMetadata key name =>
    exact update_counted_eq_error_iff rfl rfl fun r => Record.deleteMetadata_eq_error_iff
  | listMetadata key =>
    rw [answer, map_eq_error_iff]
    exact require_eq_error_iff rfl rfl fun r => Record.not_denied (.inr (.inl rfl))
  | delete key =>
    rw [← require_eq_error_iff rfl rfl fun r => Record.not_denied (.inl rfl), answer]
    cases c.require key <;> simp
  | set key value fresh =>
    constructor
    · intro h
      by_cases hne : key = ""
      · rw [hne] at h ⊢
        cases h
        exact .keyless _ rfl
      · obtain ⟨reply, hok⟩ := c.exists_answer_set hne value fresh
        rw [hok] at h
        cases h
    · intro h
      rcases denied_cases rfl h with ⟨hne, rfl⟩ | ⟨-, -, -, hcreates⟩ | ⟨r, -, -, hd⟩
      · rw [hne]
        rfl
      · cases hcreates
      · exact absurd hd (Record.not_denied (.inr (.inr ⟨value, fresh, rfl⟩)))
  | find start =>
    constructor
    · intro h
      cases h
    · intro h
      obtain ⟨text, fault, hf, -⟩ := denied_search rfl h
      cases hf
  | findByMetadata query =>
    rw [answer, findByMetadata, map_eq_error_iff, map_eq_error_iff]
    constructor
    · intro h
      obtain ⟨fault, rfl, -⟩ := Query.parse_eq_error_iff.mp h
      exact .malformed query fault h
    · intro h
      obtain ⟨text, fault, hf, rfl, hp⟩ := denied_search rfl h
      cases hf
      exact hp

end Container

end RecordStore
