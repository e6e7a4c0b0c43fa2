import Mathlib.Data.List.Nodup
import RecordStore.Proofs.Log.Durability
import RecordStore.Proofs.Pass
import RecordStore.Proofs.Storage.Backing

/-!
# After a pass a storage holds its records

A pass that succeeds makes of any storage that keeps records one that holds just the records of the
pass, whatever it held before. Passing once more removes nothing and changes nothing.

* `Exactly`: that just some records are held. `exactly_pass` and `Exactly.pass` are the first and
  the second pass over an atomic storage.
* `Holds`: that a storage says so when it is asked. `holds_of_exactly` leads from what is held to
  what is answered.
* `Prior`: the states that a storage can be in before.
* `pass_converges`: **a pass that succeeds leaves just its records, also when the storage is closed
  and opened again, and so does every later pass with them.**
-/

namespace RecordStore

open Contents (removed stored)

/-! ## What is held -/

/-- That these records are held, and nothing else. -/
structure Exactly {δ : Type} (form : Snapshot → δ) (records : List Snapshot) (c : Contents δ) :
    Prop where
  of_mem : ∀ r ∈ records, c r.key = some (form r)
  of_not_mem : ∀ key, key ∉ records.map Snapshot.key → c key = none

namespace Exactly

variable {δ : Type} {form : Snapshot → δ} {records : List Snapshot} {c : Contents δ}

/-- Storing all records where no other key is held leaves just these. -/
theorem stored (hn : (records.map Snapshot.key).Nodup)
    (hc : ∀ key, key ∉ records.map Snapshot.key → c key = none) :
    Exactly form records (stored form records c) :=
  ⟨fun _ hr => Contents.stored_of_mem hn hr c,
    fun key hk => (Contents.stored_of_not_mem hk c).trans (hc key hk)⟩

/-- Storing some of the records once more changes nothing. -/
theorem stored_take (h : Exactly form records c) (hn : (records.map Snapshot.key).Nodup) (w : Nat) :
    Exactly form records (Contents.stored form (records.take w) c) := by
  have hs : ((records.take w).map Snapshot.key).Sublist (records.map Snapshot.key) :=
    (List.take_sublist w records).map _
  refine ⟨fun r hr => ?_, fun key hk => ?_⟩
  · by_cases hm : r.key ∈ (records.take w).map Snapshot.key
    · obtain ⟨r', hr', hk⟩ := List.mem_map.mp hm
      have he : r' = r :=
        List.inj_on_of_nodup_map hn (List.mem_of_mem_take hr') hr hk
      subst he
      exact Contents.stored_of_mem (hn.sublist hs) hr' c
    · rw [Contents.stored_of_not_mem hm, h.of_mem r hr]
  · rw [Contents.stored_of_not_mem fun hm => hk (hs.subset hm), h.of_not_mem key hk]

end Exactly

section Passes

variable {σ δ : Type} [Storage σ] [Holding σ δ] [Atomic σ] {records : List Snapshot} {s : σ}

/-- **After a pass that succeeds just its records are held.** -/
theorem exactly_pass (hn : (records.map Snapshot.key).Nodup) {report : PassReport}
    (hp : (pass records s).result = .ok report) :
    Exactly (Holding.form σ) records (held (pass records s).state) ∧
    ∃ listed, (Storage.keys s).result = .ok listed ∧ listed.Nodup ∧
      report = ⟨(listed.filter (· ∉ records.map Snapshot.key)).length, records.length⟩ := by
  obtain ⟨listed, hk, hr, hh⟩ := Pass.finished_of_ok hp
  obtain ⟨hnk, -⟩ := @Atomic.keys_ok σ δ _ _ _ s listed hk
  rw [Pass.progress, List.take_length, List.take_length] at hh
  refine ⟨?_, listed, hk, hnk, by rw [hr, Pass.stale_eq]⟩
  rw [hh]
  exact .stored hn fun key hkey => Pass.removed_stale hk hkey

namespace Exactly

/-- Where just the records are held, no key is for a pass to remove. -/
theorem stale_eq_nil (h : Exactly (Holding.form σ) records (held s)) {listed : List String}
    (hk : (Storage.keys s).result = .ok listed) : Pass.stale records listed = [] := by
  obtain ⟨-, hmem⟩ := @Atomic.keys_ok σ δ _ _ _ s listed hk
  rw [Pass.stale_eq, List.filter_eq_nil_iff]
  intro key hkey hd
  have hnone := h.of_not_mem key (of_decide_eq_true hd)
  have hsome := (hmem key).mp hkey
  rw [hnone] at hsome
  cases hsome

theorem progress (h : Exactly (Holding.form σ) records (held s))
    (hn : (records.map Snapshot.key).Nodup) {listed : List String}
    (hk : (Storage.keys s).result = .ok listed) (d w : Nat) :
    Exactly (Holding.form σ) records (Pass.progress records listed d w s) := by
  rw [Pass.progress, h.stale_eq_nil hk, List.take_nil]
  exact h.stored_take hn w

/-- **A pass over just its records changes nothing**, however it ends. -/
theorem pass (h : Exactly (Holding.form σ) records (held s))
    (hn : (records.map Snapshot.key).Nodup) :
    Exactly (Holding.form σ) records (held (pass records s).state) := by
  cases Pass.ends_pass records s with
  | unlisted _ _ _ hh =>
    rw [hh]
    exact h
  | deleting listed d _ hk _ _ _ hh =>
    rw [hh]
    exact h.progress hn hk d 0
  | writing listed w _ hk _ _ _ hh =>
    rw [hh]
    exact h.progress hn hk _ w
  | unflushed listed _ _ hk _ _ _ hh =>
    rw [hh]
    exact h.progress hn hk _ _
  | finished listed hk _ hh =>
    rw [hh]
    exact h.progress hn hk _ _

/-- **It removes nothing** when it succeeds, -/
theorem report_eq (h : Exactly (Holding.form σ) records (held s)) {report : PassReport}
    (hp : (RecordStore.pass records s).result = .ok report) : report = ⟨0, records.length⟩ := by
  obtain ⟨listed, hk, hr, -⟩ := Pass.finished_of_ok hp
  rw [hr, h.stale_eq_nil hk]
  rfl

/-- and when it does not. -/
theorem deleted_eq_zero (h : Exactly (Holding.form σ) records (held s)) {phase : PassPhase}
    {deleted written : Nat} {e : StoreError}
    (hp : (RecordStore.pass records s).result = .error e)
    (hst : Pass.Stops phase deleted written e) : deleted = 0 := by
  cases Pass.ends_pass records s with
  | unlisted _ _ hr _ =>
    rw [hp, Except.error.injEq] at hr
    exact absurd (hr ▸ hst) (Pass.not_stops_listError _ _ _ _)
  | deleting listed d _ hk hlt _ _ _ =>
    rw [h.stale_eq_nil hk] at hlt
    cases hlt
  | writing listed w _ hk _ hr hst' _ =>
    rw [hp, Except.error.injEq] at hr
    rw [h.stale_eq_nil hk, ← hr] at hst'
    exact (hst.unique hst').2.1
  | unflushed listed _ cause hk _ _ hr _ =>
    rw [hp, Except.error.injEq] at hr
    rw [h.stale_eq_nil hk] at hr
    exact (hst.unique (.inr ⟨cause, hr⟩)).2.1
  | finished _ _ hr _ =>
    rw [hp] at hr
    cases hr

end Exactly

end Passes

/-! ## What is answered -/

/-- That a storage holds just these records, as far as it can be asked. -/
structure Holds {σ : Type} [Storage σ] (records : List Snapshot) (s : σ) : Prop where
  /-- The keys of the records are listed, each once and no others. -/
  keys_ok : ∃ listed, (Storage.keys s).result = .ok listed ∧
    listed.Perm (records.map Snapshot.key)
  /-- Every record is read back in full. -/
  read_eq : ∀ r ∈ records, (Storage.read r.key s).result = .ok r
  compare_eq : ∀ r ∈ records, (Storage.compare r s).result = .ok true

/-- That a storage answers according to what it holds. -/
structure Answers {σ δ : Type} [Storage σ] [Holding σ δ] (s : σ) : Prop where
  keys_ok : ∃ listed, (Storage.keys s).result = .ok listed
  read_eq : ∀ r : Snapshot, r.values ≠ [] → held s r.key = some (Holding.form σ r) →
    (Storage.read r.key s).result = .ok r
  compare_eq : ∀ r : Snapshot,
    (Storage.compare r s).result = compareWith r (Storage.read r.key s).result

/-- **A storage that holds just some records, and answers accordingly, says so.** -/
theorem holds_of_exactly {σ δ : Type} [Storage σ] [Holding σ δ] [Atomic σ]
    {records : List Snapshot} {s : σ} (ha : Answers s)
    (h : Exactly (Holding.form σ) records (held s)) (hn : (records.map Snapshot.key).Nodup)
    (hv : ∀ r ∈ records, r.values ≠ []) : Holds records s := by
  have hread : ∀ r ∈ records, (Storage.read r.key s).result = .ok r :=
    fun r hr => ha.read_eq r (hv r hr) (h.of_mem r hr)
  refine ⟨?_, hread, fun r hr => ?_⟩
  · obtain ⟨listed, hk⟩ := ha.keys_ok
    obtain ⟨hnk, hmem⟩ := @Atomic.keys_ok σ δ _ _ _ s listed hk
    refine ⟨listed, hk, (List.perm_ext_iff_of_nodup hnk hn).mpr fun key => ?_⟩
    rw [hmem]
    constructor
    · intro hs
      by_contra hm
      rw [h.of_not_mem key hm] at hs
      cases hs
    · intro hm
      obtain ⟨r, hr, rfl⟩ := List.mem_map.mp hm
      rw [h.of_mem r hr]
      rfl
  · rw [ha.compare_eq, hread r hr]
    simp [compareWith, Snapshot.sameState]

namespace Holds

variable {σ τ : Type} [Storage σ] [Storage τ] {f : σ → τ} {records : List Snapshot} {s : σ}

/-- What a storage holds, the storage around it holds. -/
theorem within (h : Holds records s) (hf : Embeds f) : Holds records (f s) := by
  refine ⟨?_, fun r hr => ?_, fun r hr => ?_⟩
  · rw [hf.keys_eq]
    exact h.keys_ok
  · rw [hf.read_eq]
    exact h.read_eq r hr
  · rw [hf.compare_eq]
    exact h.compare_eq r hr

end Holds

/-! ## The kinds of storage -/

theorem answers_memory (s : MemoryStore) : Answers s := by
  refine ⟨⟨_, rfl⟩, fun r _ h => ?_, fun _ => rfl⟩
  have hr : s.records[r.key]? = some r := h
  show s.read r.key = .ok r
  rw [MemoryStore.read, hr]

theorem answers_log (s : LogStore) : Answers s := by
  refine ⟨⟨_, rfl⟩, fun r _ h => ?_, fun _ => rfl⟩
  have hr : s.records[r.key]? = some r := h
  show s.read r.key = .ok r
  rw [LogStore.read, hr]

/-- Tables answer when there is nothing to undo that cannot be undone. -/
theorem answers_tables {s : TableStore} (hs : s.limit.all (s.owed ≤ ·) = true) : Answers s := by
  have hw : ∀ {α : Type} (act : TableStore → Outcome TableStore α),
      s.whenSettled act = act { s with owed := 0 } := fun act => if_pos hs
  refine ⟨⟨_, congrArg Outcome.result (hw _)⟩, fun r hv h => ?_, fun _ => rfl⟩
  have hr : (Storage.read r.key s).result = s.read r.key :=
    congrArg Outcome.result ((if_pos (TableStore.short_of_rows h)).trans (hw _))
  rw [hr]
  exact TableStore.read_of_held h hv

/-- Tables answer again after they were closed and opened. -/
theorem answers_reopen_tables (s : TableStore) : Answers s.reopen := answers_tables rfl

/-- A pass over tables that succeeds leaves nothing to undo. -/
theorem owed_pass_tables {records : List Snapshot} {s : TableStore} {report : PassReport}
    (hp : (pass records s).result = .ok report) : (pass records s).state.owed = 0 := by
  refine @Pass.pass_leaves TableStore _ (fun s => s.owed = 0) ?_ ?_ ?_ (fun s h => h) _ _ _ hp
  · intro s listed h
    rcases TableStore.keys_cases s with hk | hk
    · rw [hk] at h
      cases h
    · rw [hk]
      rfl
  · intro key s u h
    exact (TableStore.allOrNothing_delete key s).owed_of_ok h
  · intro r s u h
    exact (TableStore.allOrNothing_write r s).owed_of_ok h

theorem answers_pass_tables {records : List Snapshot} {s : TableStore} {report : PassReport}
    (hp : (pass records s).result = .ok report) : Answers (pass records s).state := by
  refine answers_tables ?_
  rw [owed_pass_tables hp]
  cases (pass records s).state.limit <;> simp

/-- A pass keeps what a log is made of. -/
theorem sound_pass {records : List Snapshot} {s : LogStore} (h : s.Sound) :
    (pass records s).state.Sound :=
  Pass.pass_keeps (fun _ h => h) (fun key s h => (LogStore.keeps_delete key s h).1)
    (fun _ s h => (LogStore.keeps_record _ s h).1) (fun s h => (LogStore.keeps_flush s h).1)
    records h

/-- Opening a log again changes nothing of what it holds. -/
theorem held_reopen_log {s : LogStore} (h : s.Sound) : held s.reopen.1 = held s := by
  obtain ⟨frames, h⟩ := h
  obtain ⟨hm, -⟩ := LogStore.made_reopen h
  exact LogStore.held_of_records_eq (hm.records_eq.trans h.records_eq.symm)

/-! ## Storages of any kind -/

namespace Backing

/-- The storage at a moment. -/
def during (m : Moment) : Backing → Backing
  | log s => log (s.during m)
  | tables s => tables { s with limit := m.disk.limit }
  | memory s => memory s
  | discard s => discard s

/-- The states in which a pass may find a storage that keeps records: any memory, any tables, and
any log that was opened on some bytes and used for a while. -/
inductive Prior : Backing → Prop
  | log (content : ByteArray) (steps : List (Moment × LogStep)) (m : Moment) :
    Prior (log (((LogStore.recover content).1.run steps).during m))
  | tables (s : TableStore) : Prior (tables s)
  | memory (s : MemoryStore) : Prior (memory s)

end Backing

/-- What a pass that succeeds with a report has made of a storage. -/
structure Converges (records : List Snapshot) (s : Backing) (report : PassReport) : Prop where
  /-- It holds just the records. -/
  holds : Holds records (pass records s).state
  /-- It does so when it is closed and opened again. -/
  reopened : (pass records s).state.inFile = true → Holds records (pass records s).state.reopen
  /-- Every key that was there and is none of the records' was removed. -/
  deleted_eq : ∃ listed, (Storage.keys s).result = .ok listed ∧ listed.Nodup ∧
    report.deleted = (listed.filter (· ∉ records.map Snapshot.key)).length
  written_eq : report.written = records.length
  /-- A second pass at any moment removes nothing, and if it succeeds, it changes nothing. -/
  again_ok : ∀ m report', (pass records ((pass records s).state.during m)).result = .ok report' →
    report' = ⟨0, records.length⟩ ∧
      Holds records (pass records ((pass records s).state.during m)).state
  /-- If it does not succeed, it removes nothing either. -/
  again_stops : ∀ m phase deleted written e,
    (pass records ((pass records s).state.during m)).result = .error e →
      Pass.Stops phase deleted written e → deleted = 0
  /-- However it ends, the records are there when the storage is opened again. -/
  again_reopened : ∀ m, (pass records s).state.inFile = true →
    Holds records (pass records ((pass records s).state.during m)).state.reopen

/-- What it takes of a kind of storage that a pass does so, when it is in good order. -/
structure Keeper {σ δ : Type} [Storage σ] [Holding σ δ] (f : σ → Backing) (Good : σ → Prop) :
    Prop where
  embeds : Embeds f
  answers : ∀ {records : List Snapshot} {s : σ} {report : PassReport},
    (pass records s).result = .ok report → Answers (pass records s).state
  good_pass : ∀ {records : List Snapshot} {s : σ}, Good s → Good (pass records s).state
  exists_during : ∀ m s, Good s → ∃ t, (f s).during m = f t ∧ held t = held s ∧ Good t
  exists_reopen : ∀ s, Good s → (f s).inFile = true →
    ∃ t, (f s).reopen = f t ∧ held t = held s ∧ Answers t
  inFile_eq : ∀ s t, (f s).inFile = (f t).inFile

theorem Keeper.converges {σ δ : Type} [Storage σ] [Holding σ δ] [Atomic σ] {f : σ → Backing}
    {Good : σ → Prop} (hf : Keeper f Good) {s : σ} (hs : Good s) {records : List Snapshot}
    (hn : (records.map Snapshot.key).Nodup) (hv : ∀ r ∈ records, r.values ≠ [])
    {report : PassReport} (hp : (pass records (f s)).result = .ok report) :
    Converges records (f s) report := by
  have hpass : ∀ s, pass records (f s) = (pass records s).within f := hf.embeds.pass_eq records
  have hp' : (pass records s).result = .ok report := by
    rw [hpass] at hp
    exact hp
  have hheld {t : σ} (ha : Answers t) (hx : Exactly (Holding.form σ) records (held t)) :
      Holds records (f t) := (holds_of_exactly ha hx hn hv).within hf.embeds
  have hreopen {t : σ} (ht : Good t) (hx : Exactly (Holding.form σ) records (held t))
      (hi : (f t).inFile = true) : Holds records (f t).reopen := by
    obtain ⟨u, hu, hh, ha⟩ := hf.exists_reopen t ht hi
    rw [hu]
    exact hheld ha (hh ▸ hx)
  obtain ⟨hx, listed, hk, hnk, hreport⟩ := exactly_pass hn hp'
  have hgood : Good (pass records s).state := hf.good_pass hs
  have hstate : (pass records (f s)).state = f (pass records s).state := by
    rw [hpass]
    rfl
  -- A second pass starts where the same is held.
  have hagain : ∀ m, ∃ t, (pass records (f s)).state.during m = f t ∧ Good t ∧
      Exactly (Holding.form σ) records (held t) := fun m => by
    obtain ⟨t, ht, hh, hg⟩ := hf.exists_during m _ hgood
    exact ⟨t, by rw [hstate, ht], hg, hh ▸ hx⟩
  refine ⟨?_, ?_, ⟨listed, ?_, hnk, by rw [hreport]⟩, by rw [hreport], ?_, ?_, ?_⟩
  · rw [hstate]
    exact hheld (hf.answers hp') hx
  · rw [hstate]
    exact hreopen hgood hx
  · rw [hf.embeds.keys_eq]
    exact hk
  · intro m report' hr
    obtain ⟨t, ht, -, hxt⟩ := hagain m
    rw [ht, hpass] at hr ⊢
    exact ⟨hxt.report_eq hr, hheld (hf.answers hr) (hxt.pass hn)⟩
  · intro m phase deleted written e hr hst
    obtain ⟨t, ht, -, hxt⟩ := hagain m
    rw [ht, hpass] at hr
    exact hxt.deleted_eq_zero hr hst
  · intro m hi
    obtain ⟨t, ht, hg, hxt⟩ := hagain m
    rw [ht, hpass]
    refine hreopen (hf.good_pass hg) (hxt.pass hn) ?_
    rw [hf.inFile_eq _ (pass records s).state, ← hstate]
    exact hi

theorem keeper_memory : Keeper Backing.memory fun _ => True where
  embeds := embeds_memory
  answers _ := answers_memory _
  good_pass _ := trivial
  exists_during _ s _ := ⟨s, rfl, rfl, trivial⟩
  exists_reopen _ _ h := nomatch h
  inFile_eq _ _ := rfl

theorem keeper_log : Keeper Backing.log LogStore.Sound where
  embeds := embeds_log
  answers _ := answers_log _
  good_pass := sound_pass
  exists_during m s h := ⟨s.during m, rfl, rfl, h.during m⟩
  exists_reopen s h _ := ⟨s.reopen.1, rfl, held_reopen_log h, answers_log _⟩
  inFile_eq _ _ := rfl

theorem keeper_tables : Keeper Backing.tables fun _ => True where
  embeds := embeds_tables
  answers := answers_pass_tables
  good_pass _ := trivial
  exists_during _ _ _ := ⟨_, rfl, rfl, trivial⟩
  exists_reopen s _ _ := ⟨s.reopen, rfl, rfl, answers_reopen_tables s⟩
  inFile_eq _ _ := rfl

/-- **After a pass that succeeds a storage holds just the records of the pass**, whatever it held
before, and goes on to do so. -/
theorem pass_converges {s : Backing} (hs : s.Prior) {records : List Snapshot}
    (hn : (records.map Snapshot.key).Nodup) (hv : ∀ r ∈ records, r.values ≠ [])
    {report : PassReport} (hp : (pass records s).result = .ok report) :
    Converges records s report := by
  cases hs with
  | log content steps m =>
    exact keeper_log.converges (((LogStore.sound_recover content).run steps).during m) hn hv hp
  | tables s => exact keeper_tables.converges trivial hn hv hp
  | memory s => exact keeper_memory.converges trivial hn hv hp

/-- Tables with a row whose id cannot be read, and an older value that belongs to no row. -/
def damagedTables : TableStore :=
  { TableStore.empty with
    records := (∅ : Dict RecordRow).insert "b" ⟨"?", [0]⟩
    oldValues := [⟨"a", 7, [0]⟩]
    short key h := by
      obtain rfl | h := Dict.mem_insert_iff.mp h
      · decide
      · exact TableStore.empty.short key h }

/-- A pass over them removes the row and stores a record that is read back in full. -/
theorem pass_converges_damaged :
    Converges [Pass.trial "a"] (.tables damagedTables) ⟨1, 1⟩ := by
  have hp : (pass [Pass.trial "a"] (Backing.tables damagedTables)).result = .ok ⟨1, 1⟩ := by
    decide +kernel
  have hn : ([Pass.trial "a"].map Snapshot.key).Nodup := List.nodup_singleton _
  exact pass_converges (.tables damagedTables) hn (by decide) hp

end RecordStore
