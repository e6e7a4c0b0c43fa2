import Mathlib.Data.List.Nodup
import RecordStore.Proofs.Log.Crash
import RecordStore.Proofs.Pass

/-!
# A pass over a log that was broken off

A pass over a log appends the deletes of the keys that it does not want, and behind all of them the
writes of its records. When the system stops before the pass has flushed, any part of this may be
lost at the end, also inside a frame. What is found then lies between the old records and the new
ones: nothing that is in both is lost, and nothing new shows beside what should be gone.

* `Pass.changes`: a pass up to its flush, `pass_eq`.
* `Prunes`, `Stores`: the entries of the two parts of a pass. `made_changes`: **a pass appends
  entries of the first kind and then of the second**, and of the second only when the first have
  removed all that they should.
* `Torn`: what lies between the old records and the new ones. `recover_torn`: **so does what is
  found after a pass that was broken off.**
-/

namespace RecordStore

open Framed (joined contents)
open Replay (applyAll)

namespace Pass

variable {σ : Type} [Storage σ]

/-- A pass up to its flush, with the numbers of deletes and writes. -/
def changes (records : List Snapshot) (s : σ) : Outcome σ (Nat × Nat) :=
  ((Storage.keys s).mapError listError).andThen fun listed s =>
    (applyDeletes (stale records listed) s).andThen fun deleted s =>
      (writeAll deleted records s).map (deleted, ·)

theorem pass_eq (records : List Snapshot) (s : σ) :
    pass records s = (changes records s).andThen fun done s => finish done.1 done.2 s := by
  simp only [pass, changes, Outcome.andThen_assoc, Outcome.map_andThen]

end Pass

/-! ## What the entries of a pass do -/

/-- An entry by which a key goes that the records do not have. -/
def Prunes (records : List Snapshot) (e : Entry) : Prop :=
  ∃ key ∉ records.map Snapshot.key, e.operation = .delete key

/-- An entry by which one of the records is stored. -/
def Stores (records : List Snapshot) (e : Entry) : Prop :=
  ∃ r ∈ records, e.operation = .write r

variable {records : List Snapshot} {es : List Entry}

theorem getElem?_of_prunes (h : ∀ e ∈ es, Prunes records e) (d : Dict Snapshot) (key : String) :
    (applyAll d es)[key]? = d[key]? ∨
      key ∉ records.map Snapshot.key ∧ (applyAll d es)[key]? = none := by
  induction es generalizing d with
  | nil => exact .inl rfl
  | cons e es ih =>
    obtain ⟨k, hk, he⟩ := h e List.mem_cons_self
    have happly : applyAll d (e :: es) = applyAll (d.erase k) es := by
      rw [applyAll, List.foldl_cons, he]
      rfl
    rw [happly]
    rcases ih (fun e he => h e (List.mem_cons_of_mem _ he)) (d.erase k) with hd | hd
    · rw [hd, Std.ExtTreeMap.getElem?_erase]
      split
      · rename_i hkey
        cases Std.compare_eq_iff_eq.mp hkey
        exact .inr ⟨hk, rfl⟩
      · exact .inl rfl
    · exact .inr hd

theorem getElem?_of_stores (h : ∀ e ∈ es, Stores records e) (d : Dict Snapshot) (key : String) :
    (applyAll d es)[key]? = d[key]? ∨
      ∃ r ∈ records, r.key = key ∧ (applyAll d es)[key]? = some r := by
  induction es generalizing d with
  | nil => exact .inl rfl
  | cons e es ih =>
    obtain ⟨r, hr, he⟩ := h e List.mem_cons_self
    have happly : applyAll d (e :: es) = applyAll (d.insert r.key r) es := by
      rw [applyAll, List.foldl_cons, he]
      rfl
    rw [happly]
    rcases ih (fun e he => h e (List.mem_cons_of_mem _ he)) (d.insert r.key r) with hd | hd
    · rw [hd, Std.ExtTreeMap.getElem?_insert]
      split
      · rename_i hkey
        exact .inr ⟨r, hr, Std.compare_eq_iff_eq.mp hkey, rfl⟩
      · exact .inl rfl
    · exact .inr hd

/-- What lies between the old records and those of a pass. -/
structure Torn (records : List Snapshot) (old now : Dict Snapshot) : Prop where
  /-- Under a key of the new records is what there was, if anything, or the new record. -/
  kept : ∀ r ∈ records, now[r.key]? = old[r.key]? ∨ now[r.key]? = some r
  /-- Under any other key is what there was, or nothing. -/
  left : ∀ key ∉ records.map Snapshot.key, now[key]? = old[key]? ∨ now[key]? = none
  /-- Nothing new shows before all other keys are gone. -/
  order : ∀ r ∈ records, now[r.key]? ≠ old[r.key]? →
    ∀ key ∉ records.map Snapshot.key, now[key]? = none

/-- **What is found lies between the old records and the new ones**, however few of the entries of
a pass are left. -/
theorem torn_take (hn : (records.map Snapshot.key).Nodup) (old : Dict Snapshot)
    {deletes writes : List Entry} (hd : ∀ e ∈ deletes, Prunes records e)
    (hw : ∀ e ∈ writes, Stores records e)
    (hgone : writes ≠ [] → ∀ key ∉ records.map Snapshot.key, (applyAll old deletes)[key]? = none)
    (n : Nat) : Torn records old (applyAll old ((deletes ++ writes).take n)) := by
  have hkey : ∀ {r}, r ∈ records → r.key ∈ records.map Snapshot.key := List.mem_map_of_mem
  by_cases hcut : writes.take (n - deletes.length) = []
  · -- Nothing is written yet.
    rw [List.take_append, hcut, List.append_nil]
    have htake : ∀ e ∈ deletes.take n, Prunes records e := fun e he =>
      hd e (List.mem_of_mem_take he)
    have h := getElem?_of_prunes htake old
    have hsame : ∀ r ∈ records, (applyAll old (deletes.take n))[r.key]? = old[r.key]? :=
      fun r hr => (h r.key).resolve_right fun hno => hno.1 (hkey hr)
    exact ⟨fun r hr => .inl (hsame r hr), fun key _ => (h key).imp_right And.right,
      fun r hr hne => absurd (hsame r hr) hne⟩
  · -- All deletes are there.
    have hne : writes ≠ [] := fun hno => hcut (by rw [hno, List.take_nil])
    have hlt : deletes.length ≤ n := by
      by_contra hlt
      rw [Nat.sub_eq_zero_of_le (Nat.le_of_not_le hlt), List.take_zero] at hcut
      exact hcut rfl
    rw [List.take_append, List.take_of_length_le hlt, Replay.applyAll_append]
    have hmid : ∀ r ∈ records, (applyAll old deletes)[r.key]? = old[r.key]? := fun r hr =>
      (getElem?_of_prunes hd old r.key).resolve_right fun hno => hno.1 (hkey hr)
    have htake : ∀ e ∈ writes.take (n - deletes.length), Stores records e := fun e he =>
      hw e (List.mem_of_mem_take he)
    have h := getElem?_of_stores htake (applyAll old deletes)
    have hnone : ∀ key ∉ records.map Snapshot.key,
        (applyAll (applyAll old deletes) (writes.take (n - deletes.length)))[key]? = none := by
      intro key hk
      rcases h key with hs | ⟨r, hr, rfl, -⟩
      · rw [hs, hgone hne key hk]
      · exact absurd (hkey hr) hk
    refine ⟨fun r hr => ?_, fun key hk => .inr (hnone key hk), fun _ _ _ => hnone⟩
    rcases h r.key with hs | ⟨r', hr', hk, hs⟩
    · exact .inl (hs.trans (hmid r hr))
    · exact .inr (hs.trans (congrArg some (List.inj_on_of_nodup_map hn hr' hr hk)))

namespace LogStore

variable {frames : List Framed} {s : LogStore}

/-! ## What a pass appends -/

/-- What a change appends is the entry of its operation. -/
theorem operation_of_mem_added {m : Moment} {operation : Operation} {e : Entry}
    (h : e ∈ s.added m operation) : e.operation = operation := by
  unfold added at h
  split at h
  · split at h
    · rw [List.mem_singleton.mp h]
    · cases h
  · cases h

/-- What holds of every operation of a run holds of every entry that it appends. -/
theorem made_each {α : Type} {cancelled : Nat → StoreError} {failed : Nat → StoreError → StoreError}
    {act : α → LogStore → Outcome LogStore Unit} (toOperation : α → Operation)
    (hact : ∀ a, act a = change (toOperation a)) {P : Entry → Prop} {items : List α}
    (hp : ∀ a ∈ items, ∀ e : Entry, e.operation = toOperation a → P e) (h : Made frames s) :
    ∃ more, Made (frames ++ more) (Pass.each cancelled failed act 0 items s).state ∧
      ∀ e ∈ contents more, P e := by
  let Q (t : LogStore) : Prop := ∃ more, Made (frames ++ more) t ∧ ∀ e ∈ contents more, P e
  have hs : Q s := ⟨[], by rwa [List.append_nil], fun e he => nomatch he⟩
  refine Pass.each_keeps (fun a ha t ⟨more, ht, hm⟩ => ?_) 0 hs
  obtain ⟨one, hone, hc, -⟩ := made_change ht ⟨t.disk, t.medium⟩ (toOperation a)
  refine ⟨more ++ one, by rwa [← List.append_assoc, hact], fun e he => ?_⟩
  rw [Framed.contents_append, hc, List.mem_append] at he
  exact he.elim (hm e) fun he => hp a ha e (operation_of_mem_added he)

theorem made_applyDeletes (h : Made frames s) (records : List Snapshot) (listed : List String) :
    ∃ more, Made (frames ++ more) (Pass.applyDeletes (Pass.stale records listed) s).state ∧
      ∀ e ∈ contents more, Prunes records e :=
  made_each .delete (fun _ => rfl) (fun key hk _ he => ⟨key, (Pass.mem_stale.mp hk).2, he⟩) h

theorem made_writeAll (h : Made frames s) (records : List Snapshot) (deleted : Nat) :
    ∃ more, Made (frames ++ more) (Pass.writeAll deleted records s).state ∧
      ∀ e ∈ contents more, Stores records e :=
  made_each .write (fun _ => rfl) (fun r hr _ he => ⟨r, hr, he⟩) h

/-- **A pass appends deletes and then writes**, and writes only when nothing else is left. -/
theorem made_changes (h : Made frames s) (records : List Snapshot) :
    ∃ deletes writes, Made (frames ++ (deletes ++ writes)) (Pass.changes records s).state ∧
      (∀ e ∈ contents deletes, Prunes records e) ∧ (∀ e ∈ contents writes, Stores records e) ∧
      (writes ≠ [] → ∀ key ∉ records.map Snapshot.key,
        (applyAll s.records (contents deletes))[key]? = none) := by
  have hlisted : (Storage.keys s).result = .ok s.records.keys := rfl
  obtain ⟨deletes, hd, hp⟩ := made_applyDeletes h records s.records.keys
  let o := Pass.applyDeletes (Pass.stale records s.records.keys) s
  have hstate : (Pass.changes records s).state = (o.andThen fun deleted s =>
      (Pass.writeAll deleted records s).map (deleted, ·)).state := rfl
  rw [hstate]
  cases ho : o.result with
  | error e =>
    refine ⟨deletes, [], ?_, hp, fun e he => (nomatch he), fun hne => absurd rfl hne⟩
    rwa [Outcome.state_andThen_of_error ho, List.append_nil]
  | ok deleted =>
    obtain ⟨writes, hw, hq⟩ := made_writeAll hd records deleted
    refine ⟨deletes, writes, ?_, hp, hq, fun _ key hkey => ?_⟩
    · rwa [Outcome.state_andThen_of_ok ho, Outcome.state_map, ← List.append_assoc]
    · have hrecords : o.state.records = applyAll s.records (contents deletes) := by
        rw [hd.records_eq, Framed.contents_append, Replay.applyAll_append, ← h.records_eq]
      rw [← hrecords]
      show held o.state key = none
      rw [Pass.held_applyDeletes ho, Pass.removed_stale hlisted hkey]

/-! ## Cutting the file of a pass -/

/-- All frames lie before a cut behind them. -/
theorem length_le_kept {more : List Framed} {n kept : Nat} (hn : (joined frames).length ≤ n)
    (hi : ∀ i < (frames ++ more).length,
      i < kept ↔ (joined ((frames ++ more).take (i + 1))).length ≤ n) : frames.length ≤ kept := by
  cases hf : frames.length with
  | zero => exact Nat.zero_le _
  | succ i =>
    refine (hi i ?_).mpr ?_
    · rw [List.length_append]
      omega
    · rwa [← hf, List.take_left]

/-- **What is found after a pass that was broken off lies between the old records and the new
ones.** The log was opened on anything and used in any way. The system stops before the pass
flushes, and of the file at least as much is left as there was before the pass. -/
theorem recover_torn (content : ByteArray) (steps : List (Moment × LogStep)) (m : Moment)
    {records : List Snapshot} (hn : (records.map Snapshot.key).Nodup) {n : Nat}
    (hsize : ((recover content).1.run steps).file.size ≤ n) :
    let s := (recover content).1.run steps
    let o := Pass.changes records (s.during m)
    pass records (s.during m) = (o.andThen fun done t => Pass.finish done.1 done.2 t) ∧
      Torn records s.records (recover (o.state.file.extract 0 n)).1.records := by
  intro s o
  refine ⟨Pass.pass_eq records (s.during m), ?_⟩
  obtain ⟨frames, hs⟩ := ((sound_recover content).run steps).during m
  obtain ⟨deletes, writes, hm, hd, hw, hgone⟩ := made_changes hs records
  obtain ⟨kept, -, hi, hcut, -⟩ := made_cut hm n
  have hjoined : (joined frames).length ≤ n := by
    obtain ⟨rest, hf, -⟩ := hs.file_eq
    have hlength : s.file.size = (joined frames ++ rest).length := congrArg List.length hf
    rw [List.length_append] at hlength
    exact Nat.le_trans (Nat.le_trans (Nat.le_add_right _ _) (Nat.le_of_eq hlength.symm)) hsize
  rw [List.take_append, List.take_of_length_le (length_le_kept hjoined hi)] at hcut
  rw [hcut.records_eq, Framed.contents_append, Replay.applyAll_append, ← hs.records_eq, contents,
    List.map_take, ← contents, Framed.contents_append]
  refine torn_take hn (s.during m).records hd hw (fun hne => hgone fun hno => hne ?_) _
  rw [hno]
  rfl

/-- Of a pass that puts one record in place of another only the first bytes are left. -/
theorem recover_torn_trial :
    let s := (recover .empty).1.run [({}, .write (Pass.trial "a"))]
    let o := Pass.changes [Pass.trial "b"] (s.during {})
    Torn [Pass.trial "b"] s.records
      (recover (o.state.file.extract 0 (s.file.size + 3))).1.records := by
  have hn : ([Pass.trial "b"].map Snapshot.key).Nodup := List.nodup_singleton _
  exact (recover_torn .empty [({}, .write (Pass.trial "a"))] {} hn (Nat.le_add_right _ 3)).2

end LogStore

end RecordStore
