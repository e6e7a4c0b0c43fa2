import RecordStore.Pass
import RecordStore.Proofs.Log.Maintenance

/-!
# A change that fails is undone

When the file cannot take all of a frame, some bytes of it may have got there before this is found.
They are cut off again. What is left is not merely a log in good order but the log that was there
before, so nothing that is done later shows that the change was tried.

* `CutShort`: that only so many bytes of a frame reach the file. `CutShort.of_limit`: this may be any
  number less than all of them.
* `rollBack_extend`: **cutting off what was put behind the last frame gives the same log.**
* `change_cases_of_cuts`: a change is made, or it fails with a fault of the file and changes nothing.
* `Unchanged`: that a log cannot be told from another one, now or later.
* `failure_undone`: **so it is with a log before and after a change that failed.**
-/

namespace RecordStore.LogStore

variable {s t : LogStore} {operation : Operation} {n : Nat}

/-- The frame in which an operation is put into the file. -/
def frameOf (operation : Operation) (s : LogStore) : List UInt8 :=
  Frame.wrap (Entry.encode ⟨s.disk.now, operation⟩)

/-- That a change is for the file, and that just the first `n` bytes of its frame get there. -/
structure CutShort (operation : Operation) (n : Nat) (s : LogStore) : Prop where
  matters : s.matters operation = true
  framable : Framable s.disk.now operation
  room_eq : s.room (s.frameOf operation) = n
  lt : n < (s.frameOf operation).length

/-- This may be any number of bytes, from none to all but the last: there may be room for just as
many. -/
theorem CutShort.of_limit {m : Moment} (hm : (s.during m).matters operation = true)
    (hf : Framable m.disk.now operation) (hl : m.disk.limit = some (s.file.size + n))
    (hn : n < ((s.during m).frameOf operation).length) : CutShort operation n (s.during m) := by
  refine ⟨hm, hf, ?_, hn⟩
  simp only [room, during, hl] at hn ⊢
  omega

/-! ## Cutting off -/

/-- **Cutting off what was put behind the last frame gives the same log.** -/
theorem rollBack_extend (hb : s.boundary = s.file.size) (hc : s.medium.cuts = true)
    (bytes : List UInt8) : (s.extend bytes).rollBack = .fail (.backend .append) s := by
  have hcut : (s.file ++ bytes.toByteArray).extract 0 s.boundary = s.file :=
    ByteArray.extract_append_eq_left hb
  unfold rollBack extend
  dsimp only
  rw [if_pos hc, hcut]

theorem result_rollBack (s : LogStore) : s.rollBack.result = .error (.backend .append) := by
  unfold rollBack
  split <;> rfl

/-- What reaches the file of a frame that is cut short is to be cut off again. -/
theorem change_of_cutShort (hs : s.stuck = false) (h : CutShort operation n s) :
    change operation s = (s.extend ((s.frameOf operation).take n)).rollBack := by
  have hlt : s.room (s.frameOf operation) < (s.frameOf operation).length := by
    rw [h.room_eq]
    exact h.lt
  have happend : s.append operation = (s.extend ((s.frameOf operation).take n)).rollBack := by
    rw [append_of_le rfl h.framable, whenUsable_of_not_stuck _ hs, ← frameOf, appendFrame,
      ← h.room_eq]
    exact if_pos hlt
  rcases change_cases operation s with ⟨-, hc⟩ | ⟨ht, -⟩ | ⟨hm, -⟩
  · rw [hc, record, happend, Outcome.andThen_of_error (result_rollBack _)]
    exact congrArg (Outcome.mk · _ _) (result_rollBack _).symm
  · exact absurd (hs.symm.trans ht) (by decide)
  · exact absurd (hm.symm.trans h.matters) (by decide)

/-- **A change is made, or it fails and changes nothing**, when the file can be cut. -/
theorem change_cases_of_cuts (h : Sound s) (hs : s.stuck = false) (hc : s.medium.cuts = true)
    (operation : Operation) :
    (change operation s).result = .ok () ∨
      ∃ fault, change operation s = .fail (.backend fault) s := by
  obtain ⟨frames, h⟩ := h
  have hb : s.boundary = s.file.size := h.boundary_eq.trans (h.size_file hs).symm
  rcases change_cases operation s with ⟨hm, hr⟩ | ⟨ht, -⟩ | ⟨-, hr⟩
  · by_cases hf : Framable s.disk.now operation
    · rcases Nat.lt_or_ge (s.room (s.frameOf operation)) (s.frameOf operation).length with hlt | hge
      · have hcut : CutShort operation _ s := ⟨hm, hf, rfl, hlt⟩
        exact .inr ⟨.append, (change_of_cutShort hs hcut).trans (rollBack_extend hb hc _)⟩
      · rw [hr]
        exact .inl (record_eq_ok rfl hs hf hge)
    · rw [hr]
      exact .inr ⟨_, record_of_lt rfl (Nat.not_le.mp hf)⟩
  · exact absurd (hs.symm.trans ht) (by decide)
  · rw [hr]
    exact .inl rfl

/-! ## Later on -/

/-- Logs that differ only in what the system was last are the same at every later moment. -/
theorem run_during_eq (h : ∀ m, t.during m = s.during m) (later : List (Moment × LogStep))
    (m : Moment) : (t.run later).during m = (s.run later).during m := by
  cases later with
  | nil => exact h m
  | cons step later =>
    have hstep : t.run (step :: later) = s.run (step :: later) := by
      show (perform step.2 (t.during step.1)).state.run later = _
      rw [h step.1]
      rfl
    rw [hstep]

/-- That a log is as another one was, and that nothing done with it later shows a difference. -/
structure Unchanged (s t : LogStore) : Prop where
  file_eq : t.file = s.file
  boundary_eq : t.boundary = s.boundary
  records_eq : t.records = s.records
  entryCount_eq : t.entryCount = s.entryCount
  stuck_eq : t.stuck = s.stuck
  /-- Every later step, closing and opening again among them, ends alike, with the same log and the
  same notes. -/
  perform_eq : ∀ (later : List (Moment × LogStep)) (m : Moment) (step : LogStep),
    perform step ((t.run later).during m) = perform step ((s.run later).during m)
  /-- So does every later pass. -/
  pass_eq : ∀ (later : List (Moment × LogStep)) (m : Moment) (records : List Snapshot),
    pass records ((t.run later).during m) = pass records ((s.run later).during m)
  /-- What is asked later is answered alike. -/
  sameAnswers : ∀ later : List (Moment × LogStep), SameAnswers (t.run later) (s.run later)

theorem unchanged_during (s : LogStore) (m : Moment) : Unchanged s (s.during m) := by
  have h : ∀ (later : List (Moment × LogStep)) (m' : Moment),
      ((s.during m).run later).during m' = (s.run later).during m' :=
    run_during_eq fun _ => rfl
  refine ⟨rfl, rfl, rfl, rfl, rfl, fun later m' step => ?_, fun later m' rs => ?_, fun later => ?_⟩
  · rw [h later m']
  · rw [h later m']
  · have hr := congrArg LogStore.records (h later {})
    have hc := congrArg LogStore.entryCount (h later {})
    exact .of_eq hr hc

/-- **A change that fails is undone.** The log was opened on any bytes and used in any way, it is not
stuck, and its file can be cut. The change fails when any number of bytes of its frame but not all
reach the file. Whenever it fails, it is for a fault of the file, nothing is noted, and the log is
as if the change had not been tried. -/
theorem failure_undone (content : ByteArray) (steps : List (Moment × LogStep)) (m : Moment)
    (operation : Operation) (hs : ((recover content).1.run steps).stuck = false)
    (hc : m.medium.cuts = true) :
    let s := (recover content).1.run steps
    let o := change operation (s.during m)
    (∀ n, CutShort operation n (s.during m) → o.result = .error (.backend .append)) ∧
    ∀ e, o.result = .error e →
      (∃ fault, e = .backend fault) ∧ o.events = [] ∧ Unchanged s o.state := by
  intro s o
  have hsound : Sound (s.during m) := ((sound_recover content).run steps).during m
  refine ⟨fun n h => ?_, fun e he => ?_⟩
  · rw [show o = _ from change_of_cutShort hs h]
    exact result_rollBack _
  · rcases change_cases_of_cuts hsound hs hc operation with hok | ⟨fault, hf⟩
    · cases hok.symm.trans he
    · rw [show o = _ from hf] at he ⊢
      cases he
      exact ⟨⟨fault, rfl⟩, rfl, unchanged_during s m⟩

/-- A delete of which the checksum and the first byte of the length reach the file leaves the record
where it is. -/
theorem failure_undone_deletion :
    let s := (recover .empty).1.run [({}, .write default)]
    let m : Moment := { disk := { limit := some (s.file.size + 5) } }
    let o := change (.delete "") (s.during m)
    CutShort (.delete "") 5 (s.during m) ∧ o.result = .error (.backend .append) ∧
      Unchanged s o.state := by
  intro s m o
  have hs : s.stuck = false := by decide +kernel
  have hc : m.medium.cuts = true := rfl
  have hm : (s.during m).matters (.delete "") = true := by decide +kernel
  have hl : m.disk.limit = some (s.file.size + 5) := rfl
  have hf : Framable m.disk.now (.delete "") := by
    unfold Framable
    decide +kernel
  have hn : 5 < ((s.during m).frameOf (.delete "")).length := by decide +kernel
  obtain ⟨hfail, hundone⟩ := failure_undone .empty [({}, .write default)] m (.delete "") hs hc
  have hcut : CutShort (.delete "") 5 (s.during m) := .of_limit hm hf hl hn
  have he := hfail 5 hcut
  exact ⟨hcut, he, (hundone _ he).2.2⟩

end RecordStore.LogStore
