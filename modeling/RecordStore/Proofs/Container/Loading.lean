import RecordStore.Proofs.Container.Views

/-!
# What loading makes of a container

Stored records are put over those of a container one by one, each under its own key, so that of two
with the same key the later one counts. Loading ends at the first that belongs to no record, and
what was put before it stays.

* `Snapshot.Rebuildable`: the snapshots that belong to a record. `Snapshot.Lacks`: what is wrong
  with the others.
* `Container.Overlaid`: that a container is another one with some records over it.
  `Overlaid.unique`: there is one such container.
* `overlaid_load`: loading puts records over a container, if all can be rebuilt.
* `load_of_firstFault`: and otherwise those before the first that cannot.
* `load_overlays`: **what is loaded and counted, what fails, and that a container is restored by
  loading its own snapshots in any order.**
-/

namespace RecordStore

/-- The snapshots that belong to a record. -/
def Snapshot.Rebuildable (s : Snapshot) : Prop := s.key ≠ "" ∧ s.values ≠ []

/-- What is wrong with the others. -/
inductive Snapshot.Lacks : Snapshot → StoreError → Prop
  | key {s : Snapshot} (key_eq : s.key = "") : Lacks s .emptyKey
  | values {s : Snapshot} (key_ne : s.key ≠ "") (values_eq : s.values = []) :
    Lacks s (.corruption (.noValues s.key))

/-- That a record is the first of some that cannot be rebuilt, and which are those before it. -/
structure FirstFault (records before : List Snapshot) (s : Snapshot) : Prop where
  split : ∃ after, records = before ++ s :: after
  before_rebuildable : ∀ t ∈ before, t.Rebuildable
  not_rebuildable : ¬ s.Rebuildable

namespace Container

/-- That a container is another one with some records over it. -/
structure Overlaid (c : Container) (records : List Snapshot) (d : Container) : Prop where
  /-- Under a key that is among theirs stands the last of them with this key, -/
  last : ∀ before s after, records = before ++ s :: after → s.key ∉ after.map Snapshot.key →
    ∃ r, Record.ofSnapshot s = .ok r ∧ d.get? s.key = some r
  /-- and under any other key what stood there before. -/
  other : ∀ key, key ∉ records.map Snapshot.key → d.get? key = c.get? key

variable {c d d' : Container} {records before after : List Snapshot} {s : Snapshot}

/-- Of the records with a key there is a last one. -/
theorem exists_last {key : String} (h : key ∈ records.map Snapshot.key) :
    ∃ before s after, records = before ++ s :: after ∧ s.key = key ∧
      key ∉ after.map Snapshot.key := by
  induction records with
  | nil => cases h
  | cons s records ih =>
    by_cases hm : key ∈ records.map Snapshot.key
    · obtain ⟨before, t, after, rfl, ht, hafter⟩ := ih hm
      exact ⟨s :: before, t, after, rfl, ht, hafter⟩
    · rw [List.map_cons, List.mem_cons] at h
      obtain hs | h := h
      · exact ⟨[], s, records, rfl, hs.symm, hm⟩
      · exact absurd h hm

/-- There is one container at most that is another one with some records over it. -/
theorem Overlaid.unique (h : c.Overlaid records d) (h' : c.Overlaid records d') : d = d' := by
  refine ext_get? fun key => ?_
  by_cases hm : key ∈ records.map Snapshot.key
  · obtain ⟨before, s, after, hsplit, rfl, hafter⟩ := exists_last hm
    obtain ⟨r, hr, hget⟩ := h.last before s after hsplit hafter
    obtain ⟨r', hr', hget'⟩ := h'.last before s after hsplit hafter
    rw [hr] at hr'
    cases hr'
    rw [hget, hget']
  · rw [h.other key hm, h'.other key hm]

/-! ## Loading in parts -/

/-- What can be rebuilt is loaded before what comes behind it. -/
theorem load_append (h : ∀ s ∈ before, s.Rebuildable) (c : Container) :
    c.load (before ++ after) =
      (((c.load before).2.load after).1.map (· + before.length),
        ((c.load before).2.load after).2) := by
  induction before generalizing c with
  | nil =>
    show c.load after = ((c.load after).1.map (· + 0), (c.load after).2)
    cases c.load after with
    | mk answer d => cases answer <;> rfl
  | cons s before ih =>
    obtain ⟨hs, hbefore⟩ := List.forall_mem_cons.mp h
    obtain ⟨r, hr⟩ := Record.exists_ofSnapshot_iff.mpr hs
    rw [List.cons_append, load_cons_of_ok hr, load_cons_of_ok hr, ih hbefore]
    cases ((c.insert r.key r).load before).2.load after with
    | mk answer d => cases answer <;> rfl

/-- **Records that can all be rebuilt are put over a container.** -/
theorem overlaid_load (h : ∀ s ∈ records, s.Rebuildable) (c : Container) :
    c.Overlaid records (c.load records).2 where
  last before s after hsplit hafter := by
    subst hsplit
    obtain ⟨hbefore, hrest⟩ := List.forall_mem_append.mp h
    obtain ⟨r, hr⟩ := Record.exists_ofSnapshot_iff.mpr (hrest s List.mem_cons_self)
    obtain ⟨-, -, hkey, -⟩ := Record.ofSnapshot_cases hr
    refine ⟨r, hr, ?_⟩
    rw [load_append hbefore, load_cons_of_ok hr, get?_load_of_not_mem hafter, hkey,
      get?_insert_self]
  other key hkey := get?_load_of_not_mem hkey c

/-- **Loading ends at the first record that cannot be rebuilt**, with what this one lacks. -/
theorem load_of_firstFault (h : FirstFault records before s) (c : Container) :
    ∃ e, s.Lacks e ∧ c.load records = (.error e, (c.load before).2) := by
  obtain ⟨after, rfl⟩ := h.split
  cases he : Record.ofSnapshot s with
  | ok r => exact absurd (Record.exists_ofSnapshot_iff.mp ⟨r, he⟩) h.not_rebuildable
  | error e =>
    refine ⟨e, ?_, ?_⟩
    · obtain ⟨hk, rfl⟩ | ⟨hk, hv, rfl⟩ := Record.ofSnapshot_eq_error he
      · exact .key hk
      · exact .values hk hv
    · rw [load_append h.before_rebuildable, load_cons_of_error he]
      rfl

/-- Where not all records can be rebuilt, there is a first one that cannot. -/
theorem exists_firstFault (h : ¬ ∀ s ∈ records, s.Rebuildable) :
    ∃ before s, FirstFault records before s := by
  induction records with
  | nil => exact absurd (List.forall_mem_nil _) h
  | cons s records ih =>
    by_cases hs : s.Rebuildable
    · have hrest : ¬ ∀ t ∈ records, t.Rebuildable :=
        fun hall => h (List.forall_mem_cons.mpr ⟨hs, hall⟩)
      obtain ⟨before, t, ⟨after, rfl⟩, hbefore, ht⟩ := ih hrest
      exact ⟨s :: before, t, ⟨after, rfl⟩, List.forall_mem_cons.mpr ⟨hs, hbefore⟩, ht⟩
    · exact ⟨[], s, ⟨records, rfl⟩, List.forall_mem_nil _, hs⟩

/-- **What loading makes of a container.** If all records have a key and values, they are put over
it and counted. Otherwise there is a first that has not: those before it are put over the container,
and loading fails with what this one lacks. And a container is restored by loading its own snapshots
into nothing, in any order, whatever was done to it before. -/
theorem load_overlays (c : Container) (records : List Snapshot) :
    ((∀ s ∈ records, s.Rebuildable) →
      (c.load records).1 = .ok records.length ∧ c.Overlaid records (c.load records).2) ∧
    ((¬ ∀ s ∈ records, s.Rebuildable) → ∃ before s, FirstFault records before s) ∧
    (∀ before s, FirstFault records before s →
      (∃ e, s.Lacks e ∧ (c.load records).1 = .error e) ∧
        c.Overlaid before (c.load records).2) ∧
    ∀ steps stored, let filled := (∅ : Container).performAll steps
      stored.Perm filled.snapshots →
        (filled.perform .clear).load stored = (.ok filled.size, filled) := by
  refine ⟨fun h => ⟨?_, overlaid_load h c⟩, exists_firstFault, fun before s h => ?_, ?_⟩
  · exact load_eq_ok (fun s hs => Record.exists_ofSnapshot_iff.mpr (h s hs)) c
  · obtain ⟨e, hlacks, hload⟩ := load_of_firstFault h c
    rw [hload]
    exact ⟨⟨e, hlacks, rfl⟩, overlaid_load h.before_rebuildable c⟩
  · intro steps stored filled hperm
    have hc : filled.Coherent := Coherent.empty.performAll steps
    have hlength : stored.length = filled.size := by
      rw [hperm.length_eq, ← List.length_map (f := Snapshot.key), map_key_snapshots hc]
      exact Std.ExtTreeMap.length_keys
    obtain ⟨hcount, hcontainer⟩ := hc.load_of_perm (filled.snapshots_eq ▸ hperm)
    exact Prod.ext (hlength ▸ hcount) hcontainer

/-- Of two records with one key the later counts, and one without values ends the loading. -/
theorem load_overlays_partly :
    let old : Snapshot := ⟨default, "a", [[1]], ∅⟩
    let new : Snapshot := ⟨default, "a", [[2], [3]], ∅⟩
    let broken : Snapshot := ⟨default, "b", [], ∅⟩
    let records := [old, new, broken, ⟨default, "c", [[4]], ∅⟩]
    let loaded := (∅ : Container).load records
    FirstFault records [old, new] broken ∧ loaded.1 = .error (.corruption (.noValues "b")) ∧
      (∃ r, Record.ofSnapshot new = .ok r ∧ loaded.2.get? "a" = some r) ∧
      loaded.2.get? "c" = none := by
  intro old new broken records loaded
  have hfault : FirstFault records [old, new] broken :=
    ⟨⟨_, rfl⟩, by simp [Snapshot.Rebuildable, old, new], fun h => h.2 rfl⟩
  obtain ⟨⟨e, hlacks, hload⟩, hover⟩ := (load_overlays ∅ records).2.2.1 _ _ hfault
  refine ⟨hfault, ?_, hover.last [old] new [] rfl List.not_mem_nil, ?_⟩
  · rw [hload]
    cases hlacks with
    | key h => exact absurd h (by decide)
    | values => rfl
  · rw [hover.other "c" (by simp [old, new]), get?_empty]

end Container

end RecordStore
