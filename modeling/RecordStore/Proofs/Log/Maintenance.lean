import RecordStore.Proofs.Container
import RecordStore.Proofs.Log.Crash

/-!
# Maintenance of a log is not seen

Between its changes a log can be flushed, compacted, and closed and opened again, at any moments and
also in vain. Its file becomes another one by that, and the number of its entries, but none of its
records. So nothing that is asked about them is answered in another way.

* `Tended`: steps that are some changes with maintenance anywhere between them.
* `Abreast`: that two logs hold the same records and take more. `Abreast.change` and
  `Abreast.maintain` are the steps, `Abreast.tended` the run.
* `compacted_eq_ok_iff`: when a log can be compacted, and what its file is then.
* `Compacted`: that the file is one entry for each record, in ascending order of keys.
* `transparent_tended`: **a log answers alike with and without maintenance, and when it is compacted
  in the end, its file is the same, too**, but for the times in it.
-/

namespace RecordStore

/-- The step that makes a change. -/
def LogStep.ofChange : Operation → LogStep
  | .write r => .write r
  | .delete key => .delete key

/-- Whether a step is maintenance and no change. -/
def LogStep.maintains : LogStep → Bool
  | .flush | .compact | .reopen => true
  | .write _ | .delete _ => false

namespace LogStore

/-- That the entry of an operation fits a frame. The time is part of the entry. -/
def Framable (now : Int64) (operation : Operation) : Prop :=
  (Entry.encode ⟨now, operation⟩).length ≤ Frame.maxPayload

/-- That a change comes to the same at two moments: the file may become as long as it takes at both,
and the entry fits a frame at both or at neither. -/
structure Alike (operation : Operation) (m m' : Moment) : Prop where
  limit_left : m.disk.limit = none
  limit_right : m'.disk.limit = none
  framable_iff : Framable m.disk.now operation ↔ Framable m'.disk.now operation

/-- The steps are the changes, with maintenance anywhere between them. Its moments are any, so that
it may fail. It takes time, so that changes may come later than without it. -/
inductive Tended : List (Moment × Operation) → List (Moment × LogStep) → Prop where
  | nil : Tended [] []
  | change {m m' : Moment} {operation : Operation} {changes : List (Moment × Operation)}
      {steps : List (Moment × LogStep)} (alike : Alike operation m m')
      (rest : Tended changes steps) :
      Tended ((m, operation) :: changes) ((m', .ofChange operation) :: steps)
  | maintain {m : Moment} {step : LogStep} {changes : List (Moment × Operation)}
      {steps : List (Moment × LogStep)} (maintains : step.maintains = true)
      (rest : Tended changes steps) :
      Tended changes ((m, step) :: steps)

variable {s t : LogStore} {m : Moment} {operation : Operation}

/-! ## Single steps -/

theorem perform_ofChange (operation : Operation) :
    perform (.ofChange operation) = change operation := by
  funext s
  cases operation <;> rfl

/-- A change whose entry fits no frame is not made. -/
theorem change_of_not_framable (hf : ¬Framable m.disk.now operation) :
    (change operation (s.during m)).state = s.during m := by
  have hl : Frame.maxPayload < (Entry.encode ⟨m.disk.now, operation⟩).length := Nat.not_le.mp hf
  rcases change_cases operation (s.during m) with ⟨-, hc⟩ | ⟨-, e, hc⟩ | ⟨-, hc⟩
  · have hr := record_of_lt (s := s.during m) rfl hl
    rw [hc, hr]
    rfl
  · rw [hc]
    rfl
  · rw [hc]
    rfl

/-- A change is made when its entry fits a frame and the file is not limited. -/
theorem records_change_of_fits (hs : s.stuck = false) (hf : Fits m operation) :
    (change operation (s.during m)).state.records = operation.apply s.records := by
  have hr := result_change_of_fits hs hf
  rcases change_cases operation (s.during m) with ⟨-, hc⟩ | ⟨ht, -⟩ | ⟨hm, hc⟩
  · rw [hc] at hr ⊢
    exact records_record_of_ok hr
  · have ht : s.stuck = true := ht
    rw [hs] at ht
    cases ht
  · have ha : operation.apply s.records = s.records := apply_of_not_matters hm
    rw [hc, ha]
    rfl

/-- A log gets stuck only where its file is limited. -/
theorem stuck_change (h : Sound s) (hs : s.stuck = false) (hl : m.disk.limit = none) :
    (change operation (s.during m)).state.stuck = false := by
  by_cases hf : Framable m.disk.now operation
  · have hr : (change operation (s.during m)).result = .ok () := result_change_of_fits hs ⟨hl, hf⟩
    exact (keeps_change operation _ (h.during m)).2 hr
  · rw [change_of_not_framable hf]
    exact hs

theorem stuck_flush (s : LogStore) : s.flush.state.stuck = s.stuck := by
  unfold flush whenUsable
  dsimp only
  split
  · rfl
  · split
    · rfl
    · split
      · exact stuck_compact s
      · rfl

/-- **Maintenance changes no record**, and leaves a log usable. -/
theorem maintain_perform (h : Sound s) (hs : s.stuck = false) {step : LogStep}
    (hm : step.maintains = true) (m : Moment) :
    (perform step (s.during m)).state.records = s.records ∧
      (perform step (s.during m)).state.stuck = false := by
  cases step with
  | write r => cases hm
  | delete key => cases hm
  | flush => exact ⟨records_flush (s.during m), (stuck_flush (s.during m)).trans hs⟩
  | compact => exact ⟨records_compact (s.during m), (stuck_compact (s.during m)).trans hs⟩
  | reopen =>
    obtain ⟨frames, hd⟩ := h.during m
    obtain ⟨hr, hu⟩ := made_reopen hd
    exact ⟨hr.records_eq.trans hd.records_eq.symm, hu⟩

/-! ## Two logs -/

/-- That two logs hold the same records and take more. -/
structure Abreast (s t : LogStore) : Prop where
  sound_left : Sound s
  sound_right : Sound t
  stuck_left : s.stuck = false
  stuck_right : t.stuck = false
  records_eq : s.records = t.records

namespace Abreast

theorem refl (h : Sound s) (hs : s.stuck = false) : Abreast s s := ⟨h, h, hs, hs, rfl⟩

/-- A change that comes to the same does so on both. -/
theorem change (h : Abreast s t) {m m' : Moment} (ha : Alike operation m m') :
    Abreast (LogStore.change operation (s.during m)).state
      (LogStore.change operation (t.during m')).state := by
  refine ⟨(keeps_change operation _ (h.sound_left.during m)).1,
    (keeps_change operation _ (h.sound_right.during m')).1,
    stuck_change h.sound_left h.stuck_left ha.limit_left,
    stuck_change h.sound_right h.stuck_right ha.limit_right, ?_⟩
  by_cases hf : Framable m.disk.now operation
  · have hf' := ha.framable_iff.mp hf
    rw [records_change_of_fits h.stuck_left ⟨ha.limit_left, hf⟩,
      records_change_of_fits h.stuck_right ⟨ha.limit_right, hf'⟩, h.records_eq]
  · have hf' : ¬Framable m'.disk.now operation := fun hf' => hf (ha.framable_iff.mpr hf')
    rw [change_of_not_framable hf, change_of_not_framable hf']
    exact h.records_eq

/-- Maintenance of one is not seen. -/
theorem maintain (h : Abreast s t) {step : LogStep} (hm : step.maintains = true) (m : Moment) :
    Abreast s (perform step (t.during m)).state := by
  obtain ⟨hr, hs⟩ := maintain_perform h.sound_right h.stuck_right hm m
  exact ⟨h.sound_left, (keeps_perform step _ (h.sound_right.during m)).1, h.stuck_left, hs,
    h.records_eq.trans hr.symm⟩

/-- **Changes and the same changes with maintenance between them.** -/
theorem tended (h : Abreast s t) {changes : List (Moment × Operation)}
    {steps : List (Moment × LogStep)} (ht : Tended changes steps) :
    Abreast (s.changeAll changes) (t.run steps) := by
  induction ht generalizing s t with
  | nil => exact h
  | @change m m' operation changes steps alike _ ih =>
    have hstep : t.run ((m', .ofChange operation) :: steps) =
        (LogStore.change operation (t.during m')).state.run steps := by
      rw [← perform_ofChange]
      rfl
    rw [hstep]
    exact ih (h.change alike)
  | @maintain m step changes steps maintains _ ih => exact ih (h.maintain maintains m)

end Abreast

/-! ## Compacted logs -/

/-- **A log can be compacted when the entries of its records fit frames at the time.** Its file is
these entries then. -/
theorem compacted_eq_ok_iff {bytes : List UInt8} :
    s.compacted = .ok bytes ↔ (∀ r ∈ s.records.values, Framable s.disk.now (.write r)) ∧
      bytes = written (s.records.values.map fun r => ⟨s.disk.now, .write r⟩) := by
  have hm : ∀ {chunks}, s.records.values.mapM (fun r => Frame.ofEntry? ⟨s.disk.now, .write r⟩) =
      .ok chunks ↔ (∀ r ∈ s.records.values, Framable s.disk.now (.write r)) ∧
        chunks = s.records.values.map fun r => Frame.wrap (Entry.encode ⟨s.disk.now, .write r⟩) := by
    intro chunks
    rw [Lists.mapM_eq_ok_iff fun h => (Frame.ofEntry?_eq_ok.mp h).2]
    simp only [Frame.ofEntry?_eq_ok, and_true]
    rfl
  rw [compacted, written, List.flatMap_map]
  constructor
  · intro h
    cases hc : s.records.values.mapM fun r => Frame.ofEntry? ⟨s.disk.now, .write r⟩ with
    | error e =>
      rw [hc] at h
      cases h
    | ok chunks =>
      rw [hc] at h
      cases h
      obtain ⟨hfit, rfl⟩ := hm.mp hc
      exact ⟨hfit, rfl⟩
  · rintro ⟨hfit, rfl⟩
    rw [hm.mpr ⟨hfit, rfl⟩]
    rfl

/-- That the file of a log is one entry for each of its records, all written at a time. -/
structure Compacted (rs : List Snapshot) (now : Int64) (s : LogStore) : Prop where
  /-- The records stand in strictly ascending order of keys, so that none is there twice. -/
  ascending : (rs.map Snapshot.key).Pairwise (· < ·)
  mem_iff : ∀ r, r ∈ rs ↔ s.records[r.key]? = some r
  file_eq : s.file.data.toList = written (rs.map fun r => ⟨now, .write r⟩)
  entryCount_eq : s.entryCount = rs.length
  recordCount_eq : s.recordCount = rs.length

/-- A file that is not limited can be rewritten when the new one is all right. -/
theorem rewrite_eq_ok_iff (hl : s.disk.limit = none) (hy : s.medium.syncs = true) :
    s.rewrite.result = .ok () ↔ ∀ r ∈ s.records.values, Framable s.disk.now (.write r) := by
  have hroom : ∀ n, s.mayBecome n = true := fun n => by rw [mayBecome, hl]
  constructor
  · intro h
    unfold rewrite at h
    split at h
    · cases h
    · rename_i bytes hc
      exact (compacted_eq_ok_iff.mp hc).1
  · intro h
    rw [rewrite, compacted_eq_ok_iff.mpr ⟨h, rfl⟩]
    simp only [hroom, hy, Bool.and_self, if_true]
    rfl

/-- **Compaction leaves one entry for each record**, when it succeeds. -/
theorem compacted_rewrite (hk : Keyed s.records) (h : s.rewrite.result = .ok ()) :
    Compacted s.records.values s.disk.now s.rewrite.state := by
  have hsize : s.recordCount = s.records.values.length := (Dict.length_values s.records).symm
  have hfile : ∀ bytes : List UInt8, bytes.toByteArray.data.toList = bytes := fun bytes => by
    rw [List.data_toByteArray]
  have hasc : (s.records.values.map Snapshot.key).Pairwise (· < ·) := by
    rw [hk.map_key_values]
    exact Dict.pairwise_keys s.records
  cases hc : s.compacted with
  | error e =>
    rw [rewrite, hc] at h
    cases h
  | ok bytes =>
    obtain ⟨-, rfl⟩ := compacted_eq_ok_iff.mp hc
    rw [rewrite, hc] at h ⊢
    dsimp only at h ⊢
    split at h
    · rename_i hroom
      rw [if_pos hroom]
      exact ⟨hasc, fun r => hk.mem_values_iff, hfile _, hsize, hsize⟩
    · cases h

/-! ## With and without maintenance -/

/-- **Maintenance of a log is not seen.** The log may have been opened on any bytes. As the changes
are any, this is about each point between them. When both logs are compacted in the end, their files
are the same entries in the same order, each with the time of its compaction. Where nothing hinders
it, this succeeds unless the entry of a record has become too long with the time in it. -/
theorem transparent_tended (content : ByteArray) {changes : List (Moment × Operation)}
    {steps : List (Moment × LogStep)} (h : Tended changes steps) :
    let s := (recover content).1.changeAll changes
    let t := (recover content).1.run steps
    SameReads s t ∧ ∃ rs : List Snapshot, ∀ u ∈ [s, t], ∀ m : Moment,
      ((u.during m).compact.result = .ok () →
        Compacted rs m.disk.now (u.during m).compact.state) ∧
      (m.disk.limit = none → m.medium.syncs = true →
        ((u.during m).compact.result = .ok () ↔ ∀ r ∈ rs, Framable m.disk.now (.write r))) := by
  intro s t
  obtain ⟨frames, hm, hs⟩ := exists_made_recover content
  obtain ⟨hleft, hright, hsleft, hsright, hr⟩ := (Abreast.refl ⟨frames, hm⟩ hs).tended h
  refine ⟨.of_eq hr, s.records.values, fun u hu m => ?_⟩
  obtain ⟨hsound, hstuck, hrecords⟩ : Sound u ∧ u.stuck = false ∧ u.records = s.records := by
    rcases List.mem_cons.mp hu with rfl | hu
    · exact ⟨hleft, hsleft, rfl⟩
    · rw [List.mem_singleton.mp hu]
      exact ⟨hright, hsright, hr.symm⟩
  obtain ⟨more, hmade⟩ := hsound.during m
  have hc : (u.during m).compact = (u.during m).rewrite := whenUsable_of_not_stuck _ hstuck
  rw [hc, ← hrecords]
  exact ⟨compacted_rewrite hmade.keyed, rewrite_eq_ok_iff (s := u.during m)⟩

/-- A log that is compacted, opened again and flushed in vain while two records are written and one
of them is removed. -/
theorem transparent_tended_twice :
    let r : Snapshot := { (default : Snapshot) with key := "b" }
    let later : Moment := { disk := { now := 1 } }
    let s := (recover .empty).1.changeAll
      [({}, .write r), ({}, .write default), ({}, .delete "b")]
    let t := (recover .empty).1.run
      [({}, .ofChange (.write r)), ({}, .compact), (later, .ofChange (.write default)),
        (later, .reopen), ({ medium := { syncs := false } }, .flush), ({}, .ofChange (.delete "b"))]
    SameReads s t ∧ ∃ rs, rs.length = 1 ∧ Compacted rs 0 (s.during {}).compact.state ∧
      Compacted rs 1 (t.during later).compact.state := by
  intro r later s t
  have hframable : Framable 0 (.write default) ∧ Framable 1 (.write default) := by
    unfold Framable
    decide +kernel
  have h : Tended [({}, .write r), ({}, .write default), ({}, .delete "b")]
      [({}, .ofChange (.write r)), ({}, .compact), (later, .ofChange (.write default)),
        (later, .reopen), ({ medium := { syncs := false } }, .flush),
        ({}, .ofChange (.delete "b"))] := by
    refine .change ⟨rfl, rfl, Iff.rfl⟩ (.maintain rfl ?_)
    refine .change ⟨rfl, rfl, ?_⟩ (.maintain rfl (.maintain rfl ?_))
    · exact ⟨fun _ => hframable.2, fun _ => hframable.1⟩
    · exact .change ⟨rfl, rfl, Iff.rfl⟩ .nil
  obtain ⟨hreads, rs, hrs⟩ := transparent_tended .empty h
  have hs : (s.during {}).compact.result = .ok () := by decide +kernel
  have hlater : (s.during later).compact.result = .ok () := by decide +kernel
  have hcount : (s.during {}).compact.state.recordCount = 1 := by decide +kernel
  -- What can be compacted then without the maintenance can be with it.
  have ht : (t.during later).compact.result = .ok () :=
    ((hrs t (.tail _ (.head _)) later).2 rfl rfl).mpr
      (((hrs s (.head _) later).2 rfl rfl).mp hlater)
  have hc := (hrs s (.head _) {}).1 hs
  exact ⟨hreads, rs, hc.recordCount_eq.symm.trans hcount, hc,
    (hrs t (.tail _ (.head _)) later).1 ht⟩

end LogStore

end RecordStore
