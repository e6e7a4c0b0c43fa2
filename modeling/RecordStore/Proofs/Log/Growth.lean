import RecordStore.Proofs.Convergence
import RecordStore.Proofs.Log.TornPass

/-!
# A log does not grow without bound

Every change adds an entry to a log and only a compaction removes any, so that a record that is
written in every pass leaves its old entries behind. The entries that are no longer of use are
counted off against the records when the log is flushed, and with it at the end of every pass.

* `recordCount_le`: **there are never more records than entries**, since an entry adds at most one.
* `Trim`: that a log is short, or that at least half of its entries are of use. `trim_flush`: so is
  a log that was flushed.
* `Pass.exists_flush`: a pass that succeeds ends with a flush. `recordCount_pass`: it leaves as many
  records as it was given.
* `LogTask`, `LogStore.carryOutAll`: what is done with a log in the course of time.
* `growth_bounded`: **how many entries there are at any time, after a flush and after a pass.**
-/

namespace RecordStore

open Framed (joined contents)
open Replay (applyAll)

/-! ## Records and entries -/

theorem Operation.size_apply_le (operation : Operation) (d : Dict Snapshot) :
    (operation.apply d).size ≤ d.size + 1 := by
  cases operation with
  | write r => exact Std.ExtTreeMap.size_insert_le
  | delete key => exact Nat.le_succ_of_le Std.ExtTreeMap.size_erase_le

theorem Replay.size_applyAll_le (es : List Entry) (d : Dict Snapshot) :
    (applyAll d es).size ≤ d.size + es.length := by
  induction es generalizing d with
  | nil => exact Nat.le_refl _
  | cons e es ih =>
    have hone := e.operation.size_apply_le d
    have hmore := ih (e.operation.apply d)
    calc (applyAll d (e :: es)).size
        ≤ (e.operation.apply d).size + es.length := hmore
      _ ≤ d.size + (e :: es).length := by
        rw [List.length_cons]
        omega

/-- A pass that succeeds ends with a flush that does. -/
theorem Pass.exists_flush {σ : Type} [Storage σ] {records : List Snapshot} {s : σ}
    {report : PassReport} (h : (pass records s).result = .ok report) :
    ∃ t : σ, (Storage.flush t).result = .ok () ∧
      (pass records s).state = (Storage.flush t).state := by
  rw [pass_eq] at h ⊢
  obtain ⟨done, hd, hf⟩ := Outcome.result_andThen_eq_ok.mp h
  refine ⟨(changes records s).state, ?_, Outcome.state_andThen_of_ok hd⟩
  cases hr : (Storage.flush (changes records s).state).result with
  | ok u => rfl
  | error e =>
    rw [finish, Outcome.map, Outcome.result_mapError_of_error hr] at hf
    cases hf

/-- What is done with a log in the course of time. -/
inductive LogTask where
  | step (step : LogStep)
  | pass (records : List Snapshot)

namespace LogStore

variable {s : LogStore}

/-- **There are never more records than entries.** -/
theorem Sound.recordCount_le (h : Sound s) : s.recordCount ≤ s.entryCount := by
  obtain ⟨frames, h⟩ := h
  have hsize := Replay.size_applyAll_le (contents frames) ∅
  rw [← h.records_eq, Framed.length_contents, ← h.entryCount_eq, Std.ExtTreeMap.size_empty,
    Nat.zero_add] at hsize
  exact hsize

/-! ## Flushing -/

/-- That a log has few entries, or a record for at least every other one of them. -/
def Trim (s : LogStore) : Prop :=
  s.entryCount < compactionThreshold ∨ s.entryCount ≤ 2 * s.recordCount

/-- A log that does not want to be compacted is trim. -/
theorem trim_of_not_wantsCompaction (h : ¬ s.wantsCompaction = true) : Trim s := by
  rw [wantsCompaction, Bool.and_eq_true, decide_eq_true_eq, decide_eq_true_eq, not_and_or] at h
  exact h.imp Nat.lt_of_not_le Nat.le_of_not_lt

/-- Compaction leaves an entry for each record. -/
theorem entryCount_rewrite (h : s.rewrite.result = .ok ()) :
    s.rewrite.state.entryCount = s.rewrite.state.recordCount := by
  cases hc : s.compacted with
  | error e =>
    rw [rewrite, hc] at h
    cases h
  | ok bytes =>
    rw [rewrite, hc] at h ⊢
    dsimp only at h ⊢
    split at h
    · rename_i hroom
      rw [if_pos hroom]
      rfl
    · cases h

/-- **A log that was flushed is trim.** -/
theorem trim_flush (h : s.flush.result = .ok ()) : Trim s.flush.state := by
  cases hs : s.stuck with
  | true =>
    rw [flush, whenUsable, if_pos hs] at h
    cases h
  | false =>
    rw [flush, whenUsable_of_not_stuck _ hs] at h ⊢
    split at h
    · cases h
    · rename_i hsyncs
      rw [if_neg hsyncs]
      split at h
      · rename_i hwants
        rw [if_pos hwants]
        rw [compact, whenUsable_of_not_stuck _ hs] at h ⊢
        have hcount := entryCount_rewrite h
        right
        omega
      · rename_i hwants
        rw [if_neg hwants]
        exact trim_of_not_wantsCompaction hwants

/-! ## Passes -/

/-- A pass that succeeds leaves as many records as it was given. -/
theorem recordCount_pass {records : List Snapshot} (hn : (records.map Snapshot.key).Nodup)
    {report : PassReport} (h : (pass records s).result = .ok report) :
    (pass records s).state.recordCount = records.length := by
  obtain ⟨hx, -⟩ := exactly_pass hn h
  let d := (pass records s).state.records
  have hkeys : d.keys.Perm (records.map Snapshot.key) := by
    refine (List.perm_ext_iff_of_nodup (Dict.nodup_keys d) hn).mpr fun key => ?_
    rw [Dict.mem_keys_iff_isSome]
    constructor
    · intro hsome
      by_contra hk
      have hnone : d[key]? = none := hx.of_not_mem key hk
      rw [hnone] at hsome
      cases hsome
    · intro hk
      obtain ⟨r, hr, rfl⟩ := List.mem_map.mp hk
      have hsome : d[r.key]? = some r := hx.of_mem r hr
      rw [hsome]
      rfl
  calc d.size = d.keys.length := Std.ExtTreeMap.length_keys.symm
    _ = (records.map Snapshot.key).length := hkeys.length_eq
    _ = records.length := List.length_map _

/-- **A pass that succeeds bounds the entries by its records.** -/
theorem entryCount_pass_le {records : List Snapshot} (hn : (records.map Snapshot.key).Nodup)
    {report : PassReport} (h : (pass records s).result = .ok report) :
    (pass records s).state.entryCount ≤ max 1023 (2 * records.length) := by
  obtain ⟨t, hf, hs⟩ := Pass.exists_flush h
  have ht : Trim (pass records s).state := by
    rw [hs]
    exact trim_flush hf
  rw [Trim, compactionThreshold, recordCount_pass hn h] at ht
  omega

/-! ## In the course of time -/

/-- Does a task. -/
def carryOut (task : LogTask) (s : LogStore) : LogStore :=
  match task with
  | .step step => (perform step s).state
  | .pass records => (pass records s).state

/-- The log after some tasks, each at its moment. They need not succeed. -/
def carryOutAll (tasks : List (Moment × LogTask)) (s : LogStore) : LogStore :=
  tasks.foldl (fun s task => carryOut task.2 (s.during task.1)) s

theorem Sound.carryOut (h : Sound s) (task : LogTask) : Sound (carryOut task s) := by
  cases task with
  | step step => exact (keeps_perform step s h).1
  | pass records => exact sound_pass h

theorem Sound.carryOutAll (h : Sound s) (tasks : List (Moment × LogTask)) :
    Sound (s.carryOutAll tasks) := by
  induction tasks generalizing s with
  | nil => exact h
  | cons task tasks ih => exact ih ((h.during task.1).carryOut task.2)

/-- **A log does not grow without bound.** It was opened on any bytes, and anything was done with it
since. -/
theorem growth_bounded (content : ByteArray) (tasks : List (Moment × LogTask)) :
    let s := (recover content).1.carryOutAll tasks
    s.recordCount ≤ s.entryCount ∧
    (∀ m : Moment, (s.during m).flush.result = .ok () →
      let t := (s.during m).flush.state
      t.entryCount < 1024 ∨ t.entryCount ≤ 2 * t.recordCount) ∧
    ∀ (m : Moment) (records : List Snapshot) (report : PassReport),
      (records.map Snapshot.key).Nodup → (pass records (s.during m)).result = .ok report →
        (pass records (s.during m)).state.entryCount ≤ max 1023 (2 * records.length) := by
  intro s
  have hs : Sound s := (sound_recover content).carryOutAll tasks
  exact ⟨hs.recordCount_le, fun m h => trim_flush h,
    fun m records report hn h => entryCount_pass_le hn h⟩

/-- A log of deletes only, with as many entries as it may hold, is compacted by the next pass, which
here has no records. -/
theorem growth_bounded_dead :
    ∃ content : ByteArray, (recover content).1.entryCount = 1024 ∧
      (pass [] ((recover content).1.during {})).state.entryCount ≤ 1023 := by
  obtain ⟨f, hf⟩ : ∃ f : Framed, f.entry.operation = .delete "" :=
    ⟨.ofEntry ⟨0, .delete ""⟩ (by decide +kernel), rfl⟩
  obtain ⟨frames, hlength, hframes⟩ :
      ∃ frames : List Framed, frames.length = 1024 ∧ ∀ g ∈ frames, g = f :=
    ⟨List.replicate 1024 f, List.length_replicate, fun g hg => List.eq_of_mem_replicate hg⟩
  let content := (joined frames).toByteArray
  have hcontent : content.data.toList = joined frames ++ [] := by
    rw [List.data_toByteArray, List.append_nil]
  obtain ⟨hm, hu⟩ := made_recover hcontent (.inl rfl)
  have hempty : (recover content).1.records = ∅ := by
    refine Std.ExtTreeMap.ext_getElem? fun key => ?_
    rw [hm.records_eq, Std.ExtTreeMap.getElem?_empty, Option.eq_none_iff_forall_ne_some]
    intro r hr
    -- Nothing is live, as nothing was written.
    obtain ⟨⟨before, e, after, hes, he, -⟩, -⟩ := Replay.getElem?_applyAll_iff.mp hr
    have hmem : e ∈ contents frames := hes ▸ List.mem_append_right before List.mem_cons_self
    obtain ⟨g, hg, rfl⟩ := List.mem_map.mp hmem
    rw [hframes g hg, hf] at he
    cases he
  have hcount : (recover content).1.entryCount = 1024 := hm.entryCount_eq.trans hlength
  have hp : (pass [] ((recover content).1.during {})).result = .ok ⟨0, 0⟩ := by
    generalize (recover content).1 = s at hcount hempty hu
    obtain ⟨file, boundary, records, entryCount, disk, medium, stuck⟩ := s
    obtain rfl : records = ∅ := hempty
    obtain rfl : entryCount = 1024 := hcount
    obtain rfl : stuck = false := hu
    rfl
  exact ⟨content, hcount, (growth_bounded content []).2.2 {} [] _ List.nodup_nil hp⟩

end LogStore

end RecordStore
