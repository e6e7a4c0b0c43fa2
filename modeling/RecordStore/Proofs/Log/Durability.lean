import RecordStore.Proofs.Log.Store

/-!
# A log can be opened again at any time

A log is used step by step, and at every step the system may let something else be done with its
file: the time, the space and the medium are given anew with each. Whatever it was opened on and
whatever was done with it, its file, its records and its counters go together.

* `LogStep`, `LogStore.perform`, `LogStore.run`: the steps of a log and what they do.
* `Sound`: the log is made of some frames. `sound_perform` is the step, `sound_run` the run.
* `durable_run`: **after every step that succeeds the file is read to its end, with nothing wrong,
  and holds just the records; opening it again at any time changes no answer.**
-/

namespace RecordStore

/-- What the system is during a step. When a log is opened again, neither hinders that. -/
structure Moment where
  disk : Disk := {}
  medium : Medium := {}

/-- What can be done with a log. -/
inductive LogStep where
  | write (r : Snapshot)
  | delete (key : String)
  | flush
  | compact
  | reopen

namespace LogStore

open Framed (joined contents)
open Replay (Tail applyAll)

/-- The log at a moment. -/
def during (m : Moment) (s : LogStore) : LogStore := { s with disk := m.disk, medium := m.medium }

/-- Does a step. -/
def perform (step : LogStep) (s : LogStore) : Outcome LogStore Unit :=
  match step with
  | .write r => s.write r
  | .delete key => s.delete key
  | .flush => s.flush
  | .compact => s.compact
  | .reopen => ⟨.ok (), s.reopen.1, s.reopen.2⟩

/-- The log after some steps, each at its moment. A step that fails is one, too. -/
def run (steps : List (Moment × LogStep)) (s : LogStore) : LogStore :=
  steps.foldl (fun s step => (perform step.2 (s.during step.1)).state) s

/-- That the file holds what the log has in memory, and nothing else. -/
structure Durable (s : LogStore) : Prop where
  /-- The file is read to its last byte. -/
  rest_eq : (Replay.of s.file.data.toList).rest = []
  flaw_eq : (Replay.of s.file.data.toList).flaw = none
  boundary_eq : s.boundary = s.file.size
  records_eq : (Replay.of s.file.data.toList).records = s.records
  entryCount_eq : (Replay.of s.file.data.toList).entries.length = s.entryCount
  /-- Opening the file finds nothing worth noting and cuts nothing off. -/
  events_eq : s.reopen.2 = []
  file_eq : s.reopen.1.file = s.file

/-- That two logs answer alike what is asked about their records. -/
structure SameReads (s t : LogStore) : Prop where
  read_eq : ∀ key, (Storage.read key s).result = (Storage.read key t).result
  load_eq : (Storage.load s).result = (Storage.load t).result
  keys_eq : (Storage.keys s).result = (Storage.keys t).result
  compare_eq : ∀ r, (Storage.compare r s).result = (Storage.compare r t).result
  recordCount_eq : s.recordCount = t.recordCount

/-- That two logs answer everything alike. -/
structure SameAnswers (s t : LogStore) : Prop where
  read_eq : ∀ key, (Storage.read key s).result = (Storage.read key t).result
  load_eq : (Storage.load s).result = (Storage.load t).result
  keys_eq : (Storage.keys s).result = (Storage.keys t).result
  compare_eq : ∀ r, (Storage.compare r s).result = (Storage.compare r t).result
  recordCount_eq : s.recordCount = t.recordCount
  entryCount_eq : s.entryCount = t.entryCount

/-- **The invariant**: the log is made of some frames. -/
def Sound (s : LogStore) : Prop := ∃ frames, Made frames s

variable {s : LogStore}

theorem Sound.during (h : Sound s) (m : Moment) : Sound (s.during m) := by
  obtain ⟨frames, h⟩ := h
  exact ⟨frames, h.congr rfl rfl rfl rfl rfl⟩

theorem sound_recover (content : ByteArray) : Sound (recover content).1 := by
  obtain ⟨frames, h, -⟩ := exists_made_recover content
  exact ⟨frames, h⟩

/-! ## Steps -/

/-- That an operation keeps the invariant, and leaves the log usable when it succeeds. -/
def Keeps (act : LogStore → Outcome LogStore Unit) : Prop :=
  ∀ s, Sound s → Sound (act s).state ∧ ((act s).result = .ok () → (act s).state.stuck = false)

theorem keeps_record (operation : Operation) : Keeps (record operation) := by
  rintro s ⟨frames, h⟩
  rcases made_record h operation with ⟨hl, -, hs, hm⟩ | ⟨⟨e, he⟩, hm⟩
  · exact ⟨⟨_, hm⟩, fun _ => hs⟩
  · refine ⟨⟨_, hm⟩, fun hr => ?_⟩
    rw [he] at hr
    cases hr

/-- A log that is stuck does nothing. -/
theorem keeps_whenUsable {act : LogStore → Outcome LogStore Unit}
    (h : ∀ s, Sound s → s.stuck = false →
      Sound (act s).state ∧ ((act s).result = .ok () → (act s).state.stuck = false)) :
    Keeps (whenUsable act) := by
  intro s hs
  unfold whenUsable
  split
  · exact ⟨hs, fun hr => by cases hr⟩
  · rename_i hu
    exact h s hs (Bool.eq_false_iff.mpr hu)

theorem keeps_delete (key : String) : Keeps (delete key) := by
  refine keeps_whenUsable fun s h hu => ?_
  split
  · exact keeps_record _ s h
  · exact ⟨h, fun _ => hu⟩

theorem keeps_compact : Keeps compact := by
  refine keeps_whenUsable fun s ⟨frames, h⟩ hu => ?_
  rcases made_rewrite h with ⟨more, -, hs, hm⟩ | ⟨-, hs⟩
  · exact ⟨⟨more, hm⟩, fun _ => hs.trans hu⟩
  · rw [hs]
    exact ⟨⟨frames, h⟩, fun _ => hu⟩

theorem keeps_flush : Keeps flush := by
  refine keeps_whenUsable fun s h hu => ?_
  split
  · exact ⟨h, fun _ => hu⟩
  · split
    · exact keeps_compact s h
    · exact ⟨h, fun _ => hu⟩

theorem keeps_reopen : Keeps (perform .reopen) := by
  rintro s ⟨frames, h⟩
  obtain ⟨hm, hs⟩ := made_reopen h
  exact ⟨⟨frames, hm⟩, fun _ => hs⟩

/-- **Every step keeps the invariant.** -/
theorem keeps_perform (step : LogStep) : Keeps (perform step) := by
  cases step with
  | write r => exact keeps_record _
  | delete key => exact keeps_delete key
  | flush => exact keeps_flush
  | compact => exact keeps_compact
  | reopen => exact keeps_reopen

/-- **The invariant holds after any steps.** -/
theorem Sound.run (h : Sound s) (steps : List (Moment × LogStep)) : Sound (s.run steps) := by
  induction steps generalizing s with
  | nil => exact h
  | cons step steps ih => exact ih (keeps_perform step.2 _ (h.during step.1)).1

/-! ## What the invariant says -/

theorem Sound.durable (h : Sound s) (hs : s.stuck = false) : Durable s := by
  obtain ⟨frames, h⟩ := h
  have ho : Replay.of s.file.data.toList = ⟨contents frames, [], none⟩ := by
    rw [h.toList_file hs, Replay.of_joined]
  have hr := reopen_eq_of_made h hs
  refine ⟨by rw [ho], by rw [ho], ?_, ?_, ?_, by rw [hr], by rw [hr]⟩
  · rw [h.boundary_eq, h.size_file hs]
  · rw [ho, Replay.records, h.records_eq]
  · rw [ho, h.entryCount_eq, Framed.length_contents]

/-- Logs with the same records answer alike what is asked about them. -/
theorem SameReads.of_eq {s t : LogStore} (hr : s.records = t.records) : SameReads s t := by
  have hread : ∀ key, s.read key = t.read key := fun key => by rw [read, read, hr]
  refine ⟨hread, ?_, ?_, fun r => ?_, ?_⟩
  · exact congrArg (fun d : Dict Snapshot => Except.ok d.values) hr
  · exact congrArg (fun d : Dict Snapshot => Except.ok d.keys) hr
  · exact congrArg (compareWith r) (hread r.key)
  · rw [recordCount, recordCount, hr]

/-- Logs with the same records and the same number of entries answer alike. -/
theorem SameAnswers.of_eq {s t : LogStore} (hr : s.records = t.records)
    (hc : s.entryCount = t.entryCount) : SameAnswers s t := by
  obtain ⟨hread, hload, hkeys, hcompare, hcount⟩ := SameReads.of_eq hr
  exact ⟨hread, hload, hkeys, hcompare, hcount, hc⟩

theorem getElem?_write {r : Snapshot} {u : Unit} (h : (s.write r).result = .ok u) :
    (s.write r).state.records[r.key]? = some r := by
  rw [write, records_record_of_ok h]
  exact Std.ExtTreeMap.getElem?_insert_self

theorem Sound.sameAnswers (h : Sound s) : SameAnswers s.reopen.1 s := by
  obtain ⟨frames, h⟩ := h
  obtain ⟨hm, -⟩ := made_reopen h
  exact .of_eq (hm.records_eq.trans h.records_eq.symm)
    (hm.entryCount_eq.trans h.entryCount_eq.symm)

/-- **A log that is opened on any bytes and used in any way can be opened again.** The steps and the
one behind them are any, so the first part is about each step of a run. -/
theorem durable_run (content : ByteArray) (steps : List (Moment × LogStep)) :
    Durable (recover content).1 ∧
    (∀ (m : Moment) (step : LogStep),
      let after := perform step (((recover content).1.run steps).during m)
      after.result = .ok () → Durable after.state) ∧
    SameAnswers ((recover content).1.run steps).reopen.1 ((recover content).1.run steps) ∧
    (∀ (m : Moment) (r : Snapshot),
      let s := ((recover content).1.run steps).during m
      let length := (Entry.encode ⟨m.disk.now, .write r⟩).length
      Frame.maxPayload < length → s.write r = .fail (.backend (.entrySize length)) s) := by
  have hs := (sound_recover content).run steps
  obtain ⟨_, hm, hu⟩ := exists_made_recover content
  refine ⟨Sound.durable ⟨_, hm⟩ hu, fun m step => ?_, hs.sameAnswers, fun m r => ?_⟩
  · obtain ⟨h, hok⟩ := keeps_perform step _ (hs.during m)
    exact fun hr => h.durable (hok hr)
  · exact record_of_lt rfl

theorem exists_utf8ByteSize_eq (n : Nat) : ∃ text : String, text.utf8ByteSize = n := by
  induction n with
  | zero => exact ⟨"", rfl⟩
  | succ n ih =>
    obtain ⟨text, rfl⟩ := ih
    exact ⟨text.push 'a', String.utf8ByteSize_push⟩

/-- A record that is written to a new log can be relied on, and one whose key alone is too long for
a frame is refused. -/
theorem durable_run_write :
    ∃ s : LogStore,
      ((perform (.write default) s).result = .ok () ∧ Durable (perform (.write default) s).state ∧
        (perform (.write default) s).state.records[(default : Snapshot).key]? = some default) ∧
      ∃ r : Snapshot, ∃ length > Frame.maxPayload,
        perform (.write r) s = .fail (.backend (.entrySize length)) s := by
  have hl : (Entry.encode ⟨0, .write default⟩).length ≤ Frame.maxPayload := by decide +kernel
  have hok : (write default (((recover .empty).1.run []).during {})).result = .ok () :=
    @record_eq_ok _ _ ⟨0, .write default⟩ rfl rfl hl (Nat.le_refl _)
  obtain ⟨key, hkey⟩ := exists_utf8ByteSize_eq (Frame.maxPayload + 1)
  let r : Snapshot := ⟨default, key, [], ∅⟩
  have hr : Frame.maxPayload < (Entry.encode ⟨0, .write r⟩).length := by
    have hk : key.utf8ByteSize ≤ (Entry.encode ⟨0, .write r⟩).length :=
      Entry.length_key_le_encode 0 r
    omega
  have hd := (durable_run .empty []).2.1 {} (.write default) hok
  have hlong := (durable_run .empty []).2.2.2 {} r hr
  generalize ((recover .empty).1.run []).during {} = s at hok hd hlong
  exact ⟨s, ⟨hok, hd, getElem?_write hok⟩, r, _, hr, hlong⟩

end LogStore

end RecordStore
