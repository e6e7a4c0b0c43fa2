import Mathlib.Logic.Function.Basic
import RecordStore.Proofs.Dict
import RecordStore.Proofs.Storage.Outcome

/-!
# Storages whose operations are all or nothing

What a storage holds is, for each key, something in a form of its own, or nothing. An operation of
an atomic storage either changes this as it should, or fails and changes nothing.

* `Holding`: what a storage holds, and the form that a record has in it.
* `Atomic`: **every operation takes full effect or fails without any.**
* `Loads`: what is loaded are the records that are held.
* `Contents.removed`, `Contents.stored`: what is held after some keys are removed, and after some
  records are stored.
-/

namespace RecordStore

/-- What is held under each key. -/
abbrev Contents (δ : Type) : Type := String → Option δ

/-- What a storage holds. -/
class Holding (σ : Type) (δ : outParam Type) where
  held : σ → Contents δ
  /-- The form that a record has when it is held. -/
  form : Snapshot → δ

export Holding (held)

namespace Contents

variable {δ : Type}

/-- What is held after some keys are removed. -/
def removed (keys : List String) (c : Contents δ) : Contents δ :=
  keys.foldl (fun c key => Function.update c key none) c

/-- What is held after some records are stored, each in its form. -/
def stored (form : Snapshot → δ) (records : List Snapshot) (c : Contents δ) : Contents δ :=
  records.foldl (fun c r => Function.update c r.key (some (form r))) c

theorem removed_cons (k : String) (keys : List String) (c : Contents δ) :
    removed (k :: keys) c = removed keys (Function.update c k none) := rfl

theorem stored_cons (form : Snapshot → δ) (r : Snapshot) (records : List Snapshot)
    (c : Contents δ) : stored form (r :: records) c =
      stored form records (Function.update c r.key (some (form r))) := rfl

theorem removed_of_not_mem {keys : List String} {key : String} (h : key ∉ keys)
    (c : Contents δ) : removed keys c key = c key := by
  induction keys generalizing c with
  | nil => rfl
  | cons k keys ih =>
    rw [List.mem_cons, not_or] at h
    rw [removed_cons, ih h.2, Function.update_of_ne h.1]

theorem removed_of_eq_none {c : Contents δ} {key : String} (h : c key = none)
    (keys : List String) : removed keys c key = none := by
  induction keys generalizing c with
  | nil => exact h
  | cons k keys ih =>
    rw [removed_cons]
    refine ih ?_
    by_cases hk : key = k
    · rw [hk, Function.update_self]
    · rw [Function.update_of_ne hk, h]

theorem removed_of_mem {keys : List String} {key : String} (h : key ∈ keys) (c : Contents δ) :
    removed keys c key = none := by
  induction keys generalizing c with
  | nil => cases h
  | cons k keys ih =>
    rw [removed_cons]
    rcases List.mem_cons.mp h with rfl | h
    · exact removed_of_eq_none (Function.update_self _ _ _) keys
    · exact ih h _

variable {form : Snapshot → δ} {records : List Snapshot}

theorem stored_of_not_mem {key : String} (h : key ∉ records.map Snapshot.key) (c : Contents δ) :
    stored form records c key = c key := by
  induction records generalizing c with
  | nil => rfl
  | cons r records ih =>
    rw [List.map_cons, List.mem_cons, not_or] at h
    rw [stored_cons, ih h.2, Function.update_of_ne h.1]

/-- Of records with distinct keys, each is held afterwards. -/
theorem stored_of_mem (hn : (records.map Snapshot.key).Nodup) {r : Snapshot} (h : r ∈ records)
    (c : Contents δ) : stored form records c r.key = some (form r) := by
  induction records generalizing c with
  | nil => cases h
  | cons w records ih =>
    rw [List.map_cons, List.nodup_cons] at hn
    rcases List.mem_cons.mp h with rfl | h
    · exact (stored_of_not_mem hn.1 _).trans (Function.update_self _ _ _)
    · exact ih hn.2 h _

/-- Storing records never empties a key. -/
theorem isSome_stored {key : String} {c : Contents δ} (h : (c key).isSome = true)
    (records : List Snapshot) : (stored form records c key).isSome = true := by
  induction records generalizing c with
  | nil => exact h
  | cons r records ih =>
    rw [stored_cons]
    refine ih ?_
    by_cases hk : key = r.key
    · rw [hk, Function.update_self]
      rfl
    · rwa [Function.update_of_ne hk]

end Contents

/-- **That every operation takes full effect or fails without any.** -/
class Atomic (σ : Type) {δ : Type} [Storage σ] [Holding σ δ] : Prop where
  write_ok : ∀ {s : σ} {r : Snapshot} {u : Unit}, (Storage.write r s).result = .ok u →
    held (Storage.write r s).state = Function.update (held s) r.key (some (Holding.form σ r))
  write_error : ∀ {s : σ} {r : Snapshot} {e : StoreError}, (Storage.write r s).result = .error e →
    held (Storage.write r s).state = held s
  delete_ok : ∀ {s : σ} {key : String} {u : Unit}, (Storage.delete key s).result = .ok u →
    held (Storage.delete key s).state = Function.update (held s) key none
  delete_error : ∀ {s : σ} {key : String} {e : StoreError},
    (Storage.delete key s).result = .error e → held (Storage.delete key s).state = held s
  held_flush : ∀ s : σ, held (Storage.flush s).state = held s
  held_keys : ∀ s : σ, held (Storage.keys s).state = held s
  /-- The keys listed are those under which something is held, each once. -/
  keys_ok : ∀ {s : σ} {listed : List String}, (Storage.keys s).result = .ok listed →
    listed.Nodup ∧ ∀ key, key ∈ listed ↔ (held s key).isSome = true

/-- That loading changes nothing and finds a record for each key under which something is held. -/
class Loads (σ : Type) {δ : Type} [Storage σ] [Holding σ δ] : Prop where
  held_load : ∀ s : σ, held (Storage.load s).state = held s
  load_ok : ∀ {s : σ} {rs : List Snapshot}, (Storage.load s).result = .ok rs →
    (rs.map Snapshot.key).Nodup ∧
      ∀ key, key ∈ rs.map Snapshot.key ↔ (held s key).isSome = true

end RecordStore
