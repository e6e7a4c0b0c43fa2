import RecordStore.Container
import RecordStore.Proofs.Log.Replay
import RecordStore.Proofs.Record.Basic

/-!
# Containers are rebuilt from what is stored of them

Every record in use stands under its own key, and that key is not empty. So what is stored of a
container is a dictionary of its snapshots, and loading the snapshots into an empty container gives
the container back.

* `Coherent`: that records stand under their own keys. Every change of a container keeps it.
* `get?_load_of_mem`, `get?_load_of_not_mem`: what loading some records makes of a container.
* `load_of_perm`: **a container is rebuilt from its snapshots**, in any order.
-/

namespace RecordStore

namespace Keyed

variable {d : Dict Snapshot}

/-- The keys of the records are the keys of the dictionary. -/
theorem map_key_values (h : Keyed d) : d.values.map Snapshot.key = d.keys := by
  have hk : (d.values.map fun r => (r.key, r)).map Prod.fst = d.values.map Snapshot.key :=
    List.map_map
  rw [← hk, h.map_values, Std.ExtTreeMap.map_fst_toList_eq_keys]

theorem nodup (h : Keyed d) : (d.values.map Snapshot.key).Nodup := by
  rw [h.map_key_values]
  exact Dict.nodup_keys d

theorem mem_values_iff (h : Keyed d) {r : Snapshot} : r ∈ d.values ↔ d[r.key]? = some r := by
  rw [Dict.values_eq, List.mem_map]
  constructor
  · rintro ⟨⟨key, r⟩, hm, rfl⟩
    have hr := Std.ExtTreeMap.mem_toList_iff_getElem?_eq_some.mp hm
    rwa [h key r hr]
  · intro hr
    exact ⟨(r.key, r), Std.ExtTreeMap.mem_toList_iff_getElem?_eq_some.mpr hr, rfl⟩

end Keyed

namespace Container

/-- **The invariant**: every record stands under its own key, which is not empty. -/
structure Coherent (c : Container) : Prop where
  key_eq : ∀ {key : String} {r : Record}, c.get? key = some r → r.key = key
  ne_empty : ∀ {key : String} {r : Record}, c.get? key = some r → key ≠ ""

variable {c : Container} {key : String} {r : Record}

@[simp]
theorem get?_empty (key : String) : (∅ : Container).get? key = none :=
  Std.ExtTreeMap.getElem?_empty

@[simp]
theorem get?_insert_self (c : Container) (key : String) (r : Record) :
    (c.insert key r).get? key = some r := by
  rw [get?_insert, if_pos rfl]

theorem get?_insert_of_ne {other : String} (h : key ≠ other) (c : Container) (r : Record) :
    (c.insert key r).get? other = c.get? other := by
  rw [get?_insert, if_neg h]

/-- Putting a record where it is changes nothing. -/
theorem insert_of_get? (h : c.get? key = some r) : c.insert key r = c := by
  refine ext_get? fun other => ?_
  rw [get?_insert]
  split
  · rename_i he
    rw [← he, h]
  · rfl

namespace Coherent

theorem empty : Coherent ∅ where
  key_eq h := by simp at h
  ne_empty h := by simp at h

theorem insert (hc : c.Coherent) (hr : r.key = key) (hk : key ≠ "") :
    (c.insert key r).Coherent := by
  constructor
  all_goals
    intro other r' h
    rw [get?_insert] at h
    split at h
  · rename_i he
    cases h
    rw [hr, he]
  · exact hc.key_eq h
  · rename_i he
    rwa [← he]
  · exact hc.ne_empty h

/-- A record may take the place of another with its key. -/
theorem replace (hc : c.Coherent) (h : c.get? key = some r) {r' : Record} (hr : r'.key = r.key) :
    (c.insert key r').Coherent :=
  hc.insert (hr.trans (hc.key_eq h)) (hc.ne_empty h)

theorem erase (hc : c.Coherent) (key : String) : (c.erase key).Coherent := by
  constructor
  all_goals
    intro other r h
    rw [get?_erase] at h
    split at h
  · cases h
  · exact hc.key_eq h
  · cases h
  · exact hc.ne_empty h

end Coherent

/-! ## Loading -/

variable {records : List Snapshot} {s : Snapshot}

theorem load_cons_of_ok (h : Record.ofSnapshot s = .ok r) :
    c.load (s :: records) =
      (((c.insert r.key r).load records).1.map (· + 1), ((c.insert r.key r).load records).2) := by
  rw [load, h]

theorem load_cons_of_error {e : StoreError} (h : Record.ofSnapshot s = .error e) :
    c.load (s :: records) = (.error e, c) := by
  rw [load, h]

/-- Loading keeps the invariant, however far it gets. -/
theorem Coherent.load (hc : c.Coherent) (records : List Snapshot) :
    (c.load records).2.Coherent := by
  induction records generalizing c with
  | nil => exact hc
  | cons s records ih =>
    cases hs : Record.ofSnapshot s with
    | error e =>
      rw [load_cons_of_error hs]
      exact hc
    | ok r =>
      rw [load_cons_of_ok hs]
      obtain ⟨hk, -, hr, -⟩ := Record.ofSnapshot_cases hs
      exact ih (hc.insert rfl (hr ▸ hk))

/-- Loading touches no key but those of the records. -/
theorem get?_load_of_not_mem (h : key ∉ records.map Snapshot.key) (c : Container) :
    (c.load records).2.get? key = c.get? key := by
  induction records generalizing c with
  | nil => rfl
  | cons s records ih =>
    rw [List.map_cons, List.mem_cons, not_or] at h
    cases hs : Record.ofSnapshot s with
    | error e => rw [load_cons_of_error hs]
    | ok r =>
      obtain ⟨-, -, hr, -⟩ := Record.ofSnapshot_cases hs
      rw [load_cons_of_ok hs, ih h.2, get?_insert_of_ne (hr ▸ Ne.symm h.1)]

/-- **Of records with distinct keys, each is found when all were loaded.** -/
theorem get?_load_of_mem (hn : (records.map Snapshot.key).Nodup) {n : Nat}
    (hl : (c.load records).1 = .ok n) (hs : s ∈ records) :
    ∃ r, Record.ofSnapshot s = .ok r ∧ (c.load records).2.get? s.key = some r := by
  induction records generalizing c n with
  | nil => cases hs
  | cons s' records ih =>
    rw [List.map_cons, List.nodup_cons] at hn
    cases hs' : Record.ofSnapshot s' with
    | error e =>
      rw [load_cons_of_error hs'] at hl
      cases hl
    | ok r =>
      rw [load_cons_of_ok hs'] at hl ⊢
      obtain ⟨-, -, hr, -⟩ := Record.ofSnapshot_cases hs'
      rcases List.mem_cons.mp hs with rfl | hs
      · refine ⟨r, hs', ?_⟩
        rw [get?_load_of_not_mem hn.1, hr, get?_insert_self]
      · cases hm : ((c.insert r.key r).load records).1 with
        | error e =>
          rw [hm] at hl
          cases hl
        | ok m => exact ih hn.2 hm hs

/-- What is found when all records were loaded into nothing was rebuilt from one of them. -/
theorem exists_of_get?_load (hn : (records.map Snapshot.key).Nodup) {n : Nat}
    (hl : ((∅ : Container).load records).1 = .ok n)
    (h : ((∅ : Container).load records).2.get? key = some r) :
    ∃ s ∈ records, s.key = key ∧ Record.ofSnapshot s = .ok r := by
  by_cases hm : key ∈ records.map Snapshot.key
  · obtain ⟨s, hs, rfl⟩ := List.mem_map.mp hm
    obtain ⟨r', hr', hget⟩ := get?_load_of_mem hn hl hs
    rw [h] at hget
    cases hget
    exact ⟨s, hs, rfl, hr'⟩
  · rw [get?_load_of_not_mem hm, get?_empty] at h
    cases h

/-- Records that can be rebuilt are all loaded. -/
theorem load_eq_ok (h : ∀ s ∈ records, ∃ r, Record.ofSnapshot s = .ok r) (c : Container) :
    (c.load records).1 = .ok records.length := by
  induction records generalizing c with
  | nil => rfl
  | cons s records ih =>
    obtain ⟨⟨r, hr⟩, h⟩ := List.forall_mem_cons.mp h
    rw [load_cons_of_ok hr, ih h]
    rfl

/-- Records that are all loaded can all be rebuilt. -/
theorem exists_of_load_eq_ok {n : Nat} (h : (c.load records).1 = .ok n) :
    ∀ s ∈ records, ∃ r, Record.ofSnapshot s = .ok r := by
  induction records generalizing c n with
  | nil => exact List.forall_mem_nil _
  | cons s records ih =>
    cases hs : Record.ofSnapshot s with
    | error e =>
      rw [load_cons_of_error hs] at h
      cases h
    | ok r =>
      rw [load_cons_of_ok hs] at h
      cases hm : ((c.insert r.key r).load records).1 with
      | error e =>
        rw [hm] at h
        cases h
      | ok m => exact List.forall_mem_cons.mpr ⟨⟨r, hs⟩, ih hm⟩

/-- Loading fails as one of the records does. -/
theorem exists_of_load_eq_error {e : StoreError} (h : (c.load records).1 = .error e) :
    ∃ s ∈ records, Record.ofSnapshot s = .error e := by
  induction records generalizing c with
  | nil => cases h
  | cons s records ih =>
    cases hs : Record.ofSnapshot s with
    | error e' =>
      rw [load_cons_of_error hs] at h
      cases h
      exact ⟨s, List.mem_cons_self, hs⟩
    | ok r =>
      rw [load_cons_of_ok hs] at h
      cases hm : ((c.insert r.key r).load records).1 with
      | error e' =>
        rw [hm] at h
        cases h
        obtain ⟨s', hmem, hs'⟩ := ih hm
        exact ⟨s', List.mem_cons_of_mem s hmem, hs'⟩
      | ok m =>
        rw [hm] at h
        cases h

/-! ## What is stored -/

/-- What is stored of the records. -/
def stored (c : Container) : Dict Snapshot := c.records.map fun _ r => r.snapshot

theorem snapshots_eq (c : Container) : c.snapshots = c.stored.values := by
  rw [snapshots, Dict.values_eq, stored, Std.ExtTreeMap.toList_map, List.map_map]
  rfl

theorem getElem?_stored (c : Container) (key : String) :
    c.stored[key]? = (c.get? key).map Record.snapshot :=
  Std.ExtTreeMap.getElem?_map

namespace Coherent

variable (hc : c.Coherent)
include hc

theorem keyed : Keyed c.stored := by
  intro key s h
  rw [getElem?_stored, Option.map_eq_some_iff] at h
  obtain ⟨r, hr, rfl⟩ := h
  exact hc.key_eq hr

/-- What is stored is stored of a record under the same key. -/
theorem exists_of_mem {s : Snapshot} (h : s ∈ c.stored.values) :
    ∃ r, c.get? s.key = some r ∧ r.snapshot = s ∧ Record.ofSnapshot s = .ok r := by
  have hs := hc.keyed.mem_values_iff.mp h
  rw [getElem?_stored, Option.map_eq_some_iff] at hs
  obtain ⟨r, hr, rfl⟩ := hs
  exact ⟨r, hr, rfl, Record.ofSnapshot_snapshot (hc.key_eq hr ▸ hc.ne_empty hr)⟩

theorem values_ne_nil : ∀ s ∈ c.stored.values, s.values ≠ [] := by
  intro s h
  obtain ⟨r, -, rfl, -⟩ := hc.exists_of_mem h
  exact r.history.ne_nil

/-- **A container is rebuilt from what is stored of it**, in whatever order this is loaded. -/
theorem load_of_perm (hp : records.Perm c.stored.values) :
    ((∅ : Container).load records).1 = .ok records.length ∧
      ((∅ : Container).load records).2 = c := by
  have hl := load_eq_ok (fun s hs => (hc.exists_of_mem (hp.mem_iff.mp hs)).imp fun r h => h.2.2) ∅
  have hn : (records.map Snapshot.key).Nodup := (hp.map _).nodup_iff.mpr hc.keyed.nodup
  refine ⟨hl, ext_get? fun key => ?_⟩
  cases hk : c.get? key with
  | none =>
    have hm : key ∉ records.map Snapshot.key := by
      intro hm
      obtain ⟨s, hs, rfl⟩ := List.mem_map.mp hm
      obtain ⟨r, hr, -⟩ := hc.exists_of_mem (hp.mem_iff.mp hs)
      rw [hk] at hr
      cases hr
    rw [get?_load_of_not_mem hm, get?_empty]
  | some r =>
    have hm : r.snapshot ∈ c.stored.values := by
      rw [hc.keyed.mem_values_iff, getElem?_stored]
      exact (congrArg (Option.map _) (hc.key_eq hk ▸ hk) : _)
    obtain ⟨r', hr', hget⟩ := get?_load_of_mem hn hl (hp.mem_iff.mpr hm)
    obtain ⟨r'', hget'', -, hr''⟩ := hc.exists_of_mem hm
    rw [hr'] at hr''
    cases hr''
    have hkey : r.snapshot.key = key := hc.key_eq hk
    rw [hkey] at hget hget''
    rw [hget, ← hget'', hk]

theorem load_stored :
    ((∅ : Container).load c.stored.values).1 = .ok c.stored.values.length ∧
      ((∅ : Container).load c.stored.values).2 = c :=
  hc.load_of_perm (.refl _)

end Coherent

end Container

end RecordStore
