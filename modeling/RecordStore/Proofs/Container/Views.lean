import RecordStore.Proofs.Request
import RecordStore.Proofs.Text.Order

/-!
# What a container lists

A container is changed in many ways: records are put into it, taken out of it, changed in place and
loaded, and a record that was asked for may be changed later. Whatever is done, every record stands
under its own key, and what the container lists and finds is told by what it holds.

* `Revised`: what can become of a record that is lent for a change. Its key is not among it.
* `ContainerStep`, `Container.perform`, `Container.performAll`: the changes of a container.
* `Coherent.perform` is the step, `Coherent.performAll` the run.
* `Consistent`: how what is listed, found and held goes together.
* `consistent_performAll`: **so it does after any changes**, and one that is refused is none.
-/

namespace RecordStore

/-! ## Changes of one record -/

/-- What can become of a record that is lent for a change: it is given values, and metadata entries
are set and deleted, any number of times and in any order. -/
inductive Revised (r : Record) : Record → Prop
  | same : Revised r r
  | update {r' : Record} (value : Bytes) (earlier : Revised r r') : Revised r (r'.update value)
  | setMetadata {r' r'' : Record} (name value : String) (earlier : Revised r r')
    (set_eq : r'.setMetadata name value = .ok r'') : Revised r r''
  | deleteMetadata {r' r'' : Record} (name : String) (earlier : Revised r r')
    (delete_eq : r'.deleteMetadata name = .ok r'') : Revised r r''

/-- It stays a record of its key. -/
theorem Revised.key_eq {r r' : Record} (h : Revised r r') : r'.key = r.key := by
  induction h with
  | same => rfl
  | update value _ ih => exact ih
  | setMetadata name value _ hs ih =>
    obtain ⟨m, -, rfl⟩ := Record.setMetadata_cases hs
    exact ih
  | deleteMetadata name _ hd ih =>
    obtain ⟨m, -, rfl⟩ := Record.deleteMetadata_cases hd
    exact ih

/-- What is done with a record that is lent for it. It may fail, and may have changed the record
all the same. -/
structure Revision (α : Type) where
  act : Record → Except StoreError α × Record
  revised : ∀ r, Revised r (act r).2

/-- The change of a container. -/
inductive ContainerStep : Type 1
  | set (key : String) (r : Record)
  | erase (key : String)
  /-- Change the record of a key, or create it. -/
  | upsert {α : Type} (key : String) (create : Unit → Except StoreError (Record × α))
    (revision : Revision α)
  /-- Change the record of a key, which must be there. -/
  | update {α : Type} (key : String) (revision : Revision α)
  /-- Change a record that was asked for. It may not be in use any more. -/
  | modify {α : Type} (key : String) (revision : Revision α)
  | load (records : List Snapshot)
  | clear

namespace Container

/-- The container after a change. -/
def perform (step : ContainerStep) (c : Container) : Container :=
  match step with
  | .set key r =>
    match c.set key r with
    | .ok after => after
    | .error _ => c
  | .erase key => c.erase key
  | .upsert key create revision => (c.upsert key create revision.act).2
  | .update key revision => (c.update key revision.act).2
  | .modify key revision => (c.modify key revision.act).2
  | .load records => (c.load records).2
  | .clear => ∅

/-- The container after some changes. -/
def performAll (steps : List ContainerStep) (c : Container) : Container :=
  steps.foldl (fun c step => c.perform step) c

variable {c : Container} {α : Type} {key : String} {r : Record}

/-! ## What each change does -/

/-- A record is put under its own key, or not at all. -/
theorem set_cases (c : Container) (key : String) (r : Record) :
    (key ≠ "" ∧ r.key = key ∧ c.set key r = .ok (c.insert key r)) ∨
    ∃ e, c.set key r = .error e ∧
      (key = "" ∧ e = .emptyKey ∨ key ≠ "" ∧ r.key ≠ key ∧ e = .keyMismatch key r.key) := by
  rcases checkKey_cases key with ⟨hk, hc⟩ | ⟨hk, hc⟩
  · exact .inr ⟨.emptyKey, by rw [set, hc]; rfl, .inl ⟨hk, rfl⟩⟩
  · by_cases hr : r.key = key
    · have he : checkEntry key r = .ok () := if_pos hr
      exact .inl ⟨hk, hr, by rw [set, hc, he]; rfl⟩
    · have he : checkEntry key r = .error (.keyMismatch key r.key) := if_neg hr
      exact .inr ⟨_, by rw [set, hc, he]; rfl, .inr ⟨hk, hr, rfl⟩⟩

/-- The record of a key is revised, or one is created under its own key, or nothing is done. -/
theorem upsert_cases (c : Container) (key : String)
    (create : Unit → Except StoreError (Record × α))
    (change : Record → Except StoreError α × Record) :
    (∃ r, c.get? key = some r ∧
      c.upsert key create change = ((change r).1, c.insert key (change r).2)) ∨
    (∃ r answer, key ≠ "" ∧ c.get? key = none ∧ r.key = key ∧
      c.upsert key create change = (.ok answer, c.insert key r)) ∨
    ∃ e, c.upsert key create change = (.error e, c) := by
  unfold upsert
  rcases checkKey_cases key with ⟨-, hc⟩ | ⟨hk, hc⟩
  · exact .inr (.inr ⟨_, by rw [hc]⟩)
  · rw [hc]
    cases hr : c.get? key with
    | some r => exact .inl ⟨r, rfl, rfl⟩
    | none =>
      cases hn : create () with
      | error e => exact .inr (.inr ⟨e, rfl⟩)
      | ok made =>
        obtain ⟨r, answer⟩ := made
        by_cases hr : r.key = key
        · have he : checkEntry key r = .ok () := if_pos hr
          exact .inr (.inl ⟨r, answer, hk, rfl, hr, by simp only [he]⟩)
        · have he : checkEntry key r = .error (.keyMismatch key r.key) := if_neg hr
          exact .inr (.inr ⟨.keyMismatch key r.key, by simp only [he]⟩)

theorem modify_cases (c : Container) (key : String) (change : Record → α × Record) :
    (∃ r, c.get? key = some r ∧ (c.modify key change).2 = c.insert key (change r).2) ∨
      (c.modify key change).2 = c := by
  unfold modify
  cases h : c.get? key with
  | none => exact .inr rfl
  | some r => exact .inl ⟨r, rfl, rfl⟩

theorem update_cases (c : Container) (key : String)
    (change : Record → Except StoreError α × Record) :
    (c.update key change).2 = c ∨ (c.update key change).2 = (c.modify key change).2 := by
  unfold update
  rcases checkKey_cases key with ⟨-, hc⟩ | ⟨-, hc⟩
  · exact .inl (by rw [hc])
  · rw [hc]
    cases h : c.modify key change with
    | mk answer after =>
      cases answer <;> exact .inr rfl

namespace Coherent

theorem revise (hc : c.Coherent) {r : Record} (hr : c.get? key = some r) (revision : Revision α) :
    (c.insert key (revision.act r).2).Coherent :=
  hc.replace hr (revision.revised r).key_eq

theorem modify (hc : c.Coherent) (key : String) (revision : Revision α) :
    (c.modify key revision.act).2.Coherent := by
  rcases c.modify_cases key revision.act with ⟨r, hr, h⟩ | h
  · rw [h]
    exact hc.revise hr revision
  · rw [h]
    exact hc

/-- **Every change keeps every record under its own key.** -/
theorem perform (hc : c.Coherent) (step : ContainerStep) : (c.perform step).Coherent := by
  cases step with
  | set key r =>
    rw [Container.perform]
    rcases c.set_cases key r with ⟨hk, hr, h⟩ | ⟨e, h, -⟩
    · rw [h]
      exact hc.insert hr hk
    · rw [h]
      exact hc
  | erase key => exact hc.erase key
  | upsert key create revision =>
    rw [Container.perform]
    rcases c.upsert_cases key create revision.act with
      ⟨r, hr, h⟩ | ⟨r, answer, hk, -, hr, h⟩ | ⟨e, h⟩
    · rw [h]
      exact hc.revise hr revision
    · rw [h]
      exact hc.insert hr hk
    · rw [h]
      exact hc
  | update key revision =>
    rw [Container.perform]
    rcases c.update_cases key revision.act with h | h
    · rw [h]
      exact hc
    · rw [h]
      exact hc.modify key revision
  | modify key revision => exact hc.modify key revision
  | load records => exact hc.load records
  | clear => exact .empty

theorem performAll (hc : c.Coherent) (steps : List ContainerStep) :
    (c.performAll steps).Coherent := by
  induction steps generalizing c with
  | nil => exact hc
  | cons step steps ih => exact ih (hc.perform step)

end Coherent

/-! ## What is listed -/

theorem mem_keys_iff (c : Container) (key : String) : key ∈ c.keys ↔ ∃ r, c.get? key = some r := by
  rw [keys, Dict.mem_keys_iff_isSome, Option.isSome_iff_exists]
  rfl

theorem map_key_snapshots (hc : c.Coherent) : c.snapshots.map Snapshot.key = c.keys := by
  rw [snapshots_eq, hc.keyed.map_key_values]
  exact Std.ExtTreeMap.keys_map

theorem mem_snapshots_iff (hc : c.Coherent) {x : Snapshot} :
    x ∈ c.snapshots ↔ ∃ r, c.get? x.key = some r ∧ r.snapshot = x := by
  rw [c.snapshots_eq, hc.keyed.mem_values_iff, getElem?_stored, Option.map_eq_some_iff]

/-- A record is found under a key just when one with this key is stored. -/
theorem exists_mem_snapshots_iff (hc : c.Coherent) :
    (∃ x ∈ c.snapshots, x.key = key) ↔ ∃ r, c.get? key = some r := by
  constructor
  · rintro ⟨x, hx, rfl⟩
    obtain ⟨r, hr, -⟩ := (mem_snapshots_iff hc).mp hx
    exact ⟨r, hr⟩
  · rintro ⟨r, hr⟩
    have hkey : r.snapshot.key = key := hc.key_eq hr
    exact ⟨r.snapshot, (mem_snapshots_iff hc).mpr ⟨r, hkey ▸ hr, rfl⟩, hkey⟩

/-- What is stored is stored of the records that are found under the keys, in the same order. -/
theorem map_some_snapshots (c : Container) :
    c.snapshots.map some = c.keys.map fun key => (c.get? key).map Record.snapshot := by
  rw [snapshots, keys, ← Std.ExtTreeMap.map_fst_toList_eq_keys, List.map_map, List.map_map]
  refine List.map_congr_left fun entry hm => ?_
  have hr : c.get? entry.1 = some entry.2 := Std.ExtTreeMap.mem_toList_iff_getElem?_eq_some.mp hm
  simp only [Function.comp_apply, hr, Option.map_some]

theorem find_eq (c : Container) (start : String) :
    c.find start = c.keys.filter fun key => Text.bytes start <+: Text.bytes key := by
  refine List.filter_congr fun key _ => ?_
  rw [Bool.eq_iff_iff, List.isPrefixOf_iff_prefix, decide_eq_true_iff, Text.bytes_prefix_iff]

/-- How what a container lists, finds and holds goes together. -/
structure Consistent (c : Container) : Prop where
  /-- Every record stands under its own key, which is not empty, and has a value. -/
  held : ∀ {key : String} {r : Record}, c.get? key = some r →
    r.key = key ∧ key ≠ "" ∧ r.history.values ≠ []
  /-- The keys are listed in strictly ascending order of their bytes, -/
  ascending : c.keys.Pairwise fun a b => Text.bytes a < Text.bytes b
  /-- and they are those under which something is found. -/
  mem_keys_iff : ∀ key, key ∈ c.keys ↔ ∃ r, c.get? key = some r
  contains_iff : ∀ key, c.contains key = true ↔ key ∈ c.keys
  length_keys : c.keys.length = c.size
  /-- What is stored has the same keys in the same order, -/
  key_snapshots : c.snapshots.map Snapshot.key = c.keys
  /-- and is stored of the records that are found. -/
  map_snapshots : c.snapshots.map some = c.keys.map fun key => (c.get? key).map Record.snapshot
  /-- The keys that begin like a text are those whose bytes do, in the same order. -/
  find_eq : ∀ start, c.find start = c.keys.filter fun key => Text.bytes start <+: Text.bytes key

/-- **It does where every record stands under its own key.** -/
theorem Coherent.consistent (hc : c.Coherent) : c.Consistent where
  held {_ r} h := ⟨hc.key_eq h, hc.ne_empty h, r.history.ne_nil⟩
  ascending := (Dict.pairwise_keys c.records).imp Text.bytes_lt
  mem_keys_iff := c.mem_keys_iff
  contains_iff _ := Std.ExtTreeMap.contains_iff_mem.trans Std.ExtTreeMap.mem_keys.symm
  length_keys := Std.ExtTreeMap.length_keys
  key_snapshots := map_key_snapshots hc
  map_snapshots := c.map_some_snapshots
  find_eq := c.find_eq

/-- **What a container lists goes together with what it holds, after any changes**, and it is as it
was when a record cannot be put into it or created. -/
theorem consistent_performAll (steps : List ContainerStep) :
    let c := (∅ : Container).performAll steps
    c.Consistent ∧
    (∀ key r e, c.set key r = .error e → (key = "" ∨ r.key ≠ key) ∧ c.perform (.set key r) = c) ∧
    ∀ {α : Type} key (create : Unit → Except StoreError (Record × α)) (revision : Revision α) e,
      c.get? key = none → (c.upsert key create revision.act).1 = .error e →
        c.perform (.upsert key create revision) = c := by
  intro c
  refine ⟨(Coherent.empty.performAll steps).consistent, fun key r e h => ?_,
    fun key create revision e hn h => ?_⟩
  · refine ⟨?_, by rw [perform, h]⟩
    rcases c.set_cases key r with ⟨-, -, hok⟩ | ⟨e', -, ⟨hk, -⟩ | ⟨-, hr, -⟩⟩
    · rw [h] at hok
      cases hok
    · exact .inl hk
    · exact .inr hr
  · rw [perform]
    rcases c.upsert_cases key create revision.act with
      ⟨r, hr, -⟩ | ⟨r, answer, -, -, -, he⟩ | ⟨e, he⟩
    · rw [hn] at hr
      cases hr
    · rw [he] at h
      cases h
    · rw [he]

/-- A record is not put under another key, and what cannot be loaded ends the loading. -/
example : (performAll [.set "a" { (default : Record) with key := "b" },
    .load [⟨default, "é", [[]], ∅⟩, ⟨default, "z", [[]], ∅⟩, ⟨default, "", [], ∅⟩]] ∅).keys =
      ["z", "é"] := by
  decide +kernel

end Container

end RecordStore
