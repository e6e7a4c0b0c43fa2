import RecordStore.Proofs.Lists
import RecordStore.Proofs.Log.Replay
import RecordStore.Proofs.Storage.Outcome
import RecordStore.Storage.Log

/-!
# What a log is made of

Between two operations the file of a log is frames and nothing else, and the records and the number
of entries are those of the frames. Part of a frame stands behind them only while the log is stuck.

* `Made`: the invariant, for given frames.
* `exists_made_recover`: a log of any bytes is made of frames from the start.
* `made_record`: **a change that succeeds adds its frame, and one that fails leaves the frames as
  they are.**
* `made_rewrite`: compaction puts one frame for each record in their place.
-/

namespace RecordStore.LogStore

open Framed (joined contents)
open Replay (Tail applyAll)

/-- **The invariant**: the log is made of these frames. -/
structure Made (frames : List Framed) (s : LogStore) : Prop where
  /-- What is behind the frames could not be cut off. -/
  file_eq : ∃ rest, s.file.data.toList = joined frames ++ rest ∧ Tail rest ∧
    (s.stuck = false → rest = [])
  boundary_eq : s.boundary = (joined frames).length
  records_eq : s.records = applyAll ∅ (contents frames)
  entryCount_eq : s.entryCount = frames.length

variable {frames : List Framed} {s : LogStore}

namespace Made

/-- The bytes of a log that is not stuck are those of its frames. -/
theorem toList_file (h : Made frames s) (hs : s.stuck = false) :
    s.file.data.toList = joined frames := by
  obtain ⟨rest, hf, -, hr⟩ := h.file_eq
  rw [hf, hr hs, List.append_nil]

theorem size_file (h : Made frames s) (hs : s.stuck = false) :
    s.file.size = (joined frames).length := by
  rw [← h.toList_file hs]
  rfl

theorem keyed (h : Made frames s) : Keyed s.records := by
  rw [h.records_eq]
  exact Keyed.empty.applyAll _

/-- The invariant does not ask what the system lets be done. -/
theorem congr (h : Made frames s) {t : LogStore} (hf : t.file = s.file)
    (hb : t.boundary = s.boundary) (hr : t.records = s.records)
    (hc : t.entryCount = s.entryCount) (hs : t.stuck = s.stuck) : Made frames t := by
  refine ⟨?_, hb.trans h.boundary_eq, hr.trans h.records_eq, hc.trans h.entryCount_eq⟩
  rw [hf, hs]
  exact h.file_eq

end Made

theorem toList_extract (bytes : ByteArray) (n : Nat) :
    (bytes.extract 0 n).data.toList = bytes.data.toList.take n := by
  rw [ByteArray.data_extract, Array.toList_extract, List.extract_eq_take_drop]
  rfl

/-! ## Opening a log -/

theorem made_recover {content : ByteArray} {rest : List UInt8}
    (h : content.data.toList = joined frames ++ rest) (hr : Tail rest) :
    Made frames (recover content).1 ∧ (recover content).1.stuck = false := by
  have hsize : content.size = (joined frames).length + rest.length := by
    rw [← List.length_append, ← h]
    rfl
  have hrest : (Replay.of content.data.toList).rest = rest := by
    rw [h, Replay.rest_joined_append frames hr]
  have hentries : (Replay.of content.data.toList).entries = contents frames := by
    rw [h, Replay.entries_joined_append frames hr]
  have hvalid : content.size - rest.length = (joined frames).length := by omega
  refine ⟨⟨⟨[], ?_, .inl rfl, fun _ => rfl⟩, ?_, ?_, ?_⟩, rfl⟩
  · simp only [recover, hrest, hvalid, toList_extract]
    rw [h, List.take_left, List.append_nil]
  · simp only [recover, hrest, hvalid]
  · simp only [recover, Replay.records, hentries]
  · simp only [recover, hentries, Framed.length_contents]

/-- **A log of any bytes is made of frames.** -/
theorem exists_made_recover (content : ByteArray) :
    ∃ frames, Made frames (recover content).1 ∧ (recover content).1.stuck = false := by
  obtain ⟨frames, rest, h, hr⟩ := Replay.exists_joined_append content.data.toList
  exact ⟨frames, made_recover h hr⟩

theorem made_empty : Made [] ∅ :=
  ⟨⟨[], rfl, .inl rfl, fun _ => rfl⟩, rfl, rfl, rfl⟩

/-- Opening the file of a log again finds the frames it is made of. -/
theorem made_reopen (h : Made frames s) : Made frames s.reopen.1 ∧ s.reopen.1.stuck = false := by
  obtain ⟨rest, hf, ht, -⟩ := h.file_eq
  exact made_recover hf ht

/-- Nothing is wrong with the file of a log that is not stuck. -/
theorem reopen_eq_of_made (h : Made frames s) (hs : s.stuck = false) :
    s.reopen = ({ s with disk := {}, medium := {} }, []) := by
  have ho : Replay.of s.file.data.toList = ⟨contents frames, [], none⟩ := by
    rw [h.toList_file hs, Replay.of_joined]
  have hb : s.boundary = s.file.size := h.boundary_eq.trans (h.size_file hs).symm
  simp [reopen, recover, ho, Replay.records, hb, hs, h.records_eq, h.entryCount_eq]

/-! ## Putting frames at the end -/

variable {operation : Operation}

/-- A log that is not stuck does what it is asked. -/
theorem whenUsable_of_not_stuck {α : Type} (act : LogStore → Outcome LogStore α)
    (hs : s.stuck = false) : s.whenUsable act = act s :=
  if_neg (Bool.eq_false_iff.mp hs)

theorem append_of_le {e : Entry} (he : e = ⟨s.disk.now, operation⟩)
    (h : e.encode.length ≤ Frame.maxPayload) :
    s.append operation = s.whenUsable (appendFrame (Frame.wrap e.encode)) := by
  subst he
  rw [append, Frame.ofEntry?, if_pos h]

/-- **A change that is too long for a frame fails and changes nothing.** -/
theorem record_of_lt {e : Entry} (he : e = ⟨s.disk.now, operation⟩)
    (h : Frame.maxPayload < e.encode.length) :
    s.record operation = .fail (.backend (.entrySize e.encode.length)) s := by
  subst he
  rw [record, append, Frame.ofEntry?, if_neg (Nat.not_le.mpr h)]
  rfl

/-- What could be written of a frame is cut off again, or the log is stuck. -/
theorem made_rollBack (h : Made frames s) (hs : s.stuck = false) {f : Framed} {n : Nat}
    (hn : n < f.bytes.length) : Made frames (s.extend (f.bytes.take n)).rollBack.state := by
  have hfile : (s.extend (f.bytes.take n)).file.data.toList = joined frames ++ f.bytes.take n := by
    rw [extend, ByteArray.toList_data_append, h.toList_file hs, List.data_toByteArray]
  unfold rollBack
  split
  · refine ⟨⟨[], ?_, .inl rfl, fun _ => rfl⟩, h.boundary_eq, h.records_eq, h.entryCount_eq⟩
    rw [Outcome.fail, toList_extract, hfile]
    show (joined frames ++ f.bytes.take n).take s.boundary = _
    rw [h.boundary_eq, List.take_left, List.append_nil]
  · -- What stays behind is less than a frame, so that replay stops in front of it.
    have hd : f.bytes.drop n ≠ [] := fun hd => by
      have := List.drop_eq_nil_iff.mp hd
      omega
    have ht : Tail (f.bytes.take n) :=
      .inr (f.flawed_of_append (List.take_append_drop n _).symm hd)
    exact ⟨⟨_, hfile, ht, fun hf => nomatch hf⟩, h.boundary_eq, h.records_eq, h.entryCount_eq⟩

/-- What could be written of a frame in full counts, once the records are changed like its entry
says. -/
theorem made_extend (h : Made frames s) (hs : s.stuck = false) (f : Framed) :
    Made (frames ++ [f]) { s.extend f.bytes with
      boundary := s.boundary + f.bytes.length
      entryCount := s.entryCount + 1
      records := f.entry.operation.apply s.records } := by
  refine ⟨⟨[], ?_, .inl rfl, fun _ => rfl⟩, ?_, ?_, ?_⟩
  · show (s.file ++ f.bytes.toByteArray).data.toList = _
    rw [ByteArray.toList_data_append, h.toList_file hs, List.data_toByteArray]
    simp
  · rw [Framed.joined_append, List.length_append, h.boundary_eq]
    simp
  · rw [Framed.contents_append, Replay.applyAll_append, ← h.records_eq]
    rfl
  · rw [List.length_append, h.entryCount_eq]
    rfl

/-- **A change that succeeds adds its frame, and one that fails leaves the frames as they are.** -/
theorem made_record (h : Made frames s) (operation : Operation) :
    (∃ hl : (Entry.encode ⟨s.disk.now, operation⟩).length ≤ Frame.maxPayload,
      (s.record operation).result = .ok () ∧ (s.record operation).state.stuck = false ∧
      Made (frames ++ [.ofEntry _ hl]) (s.record operation).state) ∨
    (∃ e, (s.record operation).result = .error e) ∧ Made frames (s.record operation).state := by
  rcases Nat.lt_or_ge Frame.maxPayload (Entry.encode ⟨s.disk.now, operation⟩).length with hl | hl
  · rw [record_of_lt rfl hl]
    exact .inr ⟨⟨_, rfl⟩, h⟩
  let f : Framed := .ofEntry _ hl
  have ha : s.append operation = s.whenUsable (appendFrame f.bytes) := append_of_le rfl hl
  cases hs : s.stuck with
  | true =>
    rw [record, ha, whenUsable, if_pos hs]
    exact .inr ⟨⟨_, rfl⟩, h⟩
  | false =>
    rw [whenUsable_of_not_stuck _ hs, appendFrame] at ha
    by_cases hr : s.room f.bytes < f.bytes.length
    · simp only [hr, if_true] at ha
      have he : (s.append operation).result = .error (.backend .append) := by
        rw [ha, rollBack]
        split <;> rfl
      refine .inr ⟨⟨_, Outcome.result_andThen_of_error he⟩, ?_⟩
      rw [record, Outcome.state_andThen_of_error he, ha]
      exact made_rollBack h hs hr
    · have ht : f.bytes.take (s.room f.bytes) = f.bytes :=
        List.take_of_length_le (Nat.le_of_not_lt hr)
      simp only [hr, if_false, ht] at ha
      rw [record, ha]
      exact .inl ⟨hl, rfl, hs, made_extend h hs f⟩

theorem records_append (operation : Operation) (s : LogStore) :
    (s.append operation).state.records = s.records := by
  unfold append
  split
  · rfl
  · unfold whenUsable appendFrame rollBack
    dsimp only
    split
    · rfl
    · split
      · split <;> rfl
      · rfl

/-- The records change when the change is in the file. -/
theorem records_record_of_ok {u : Unit} (h : (s.record operation).result = .ok u) :
    (s.record operation).state.records = operation.apply s.records := by
  obtain ⟨_, ha, -⟩ := Outcome.result_andThen_eq_ok.mp h
  rw [record, Outcome.state_andThen_of_ok ha]
  exact congrArg operation.apply (records_append operation s)

theorem records_record_of_error {e : StoreError} (h : (s.record operation).result = .error e) :
    (s.record operation).state.records = s.records := by
  cases ha : (s.append operation).result with
  | error fault =>
    rw [record, Outcome.state_andThen_of_error ha, records_append]
  | ok u =>
    rw [record, Outcome.result_andThen_of_ok ha] at h
    cases h

/-- A change succeeds when it fits a frame and there is room for all of that. -/
theorem record_eq_ok {e : Entry} (he : e = ⟨s.disk.now, operation⟩) (hs : s.stuck = false)
    (hl : e.encode.length ≤ Frame.maxPayload)
    (hr : (Frame.wrap e.encode).length ≤ s.room (Frame.wrap e.encode)) :
    (s.record operation).result = .ok () := by
  rw [record, append_of_le he hl, whenUsable_of_not_stuck _ hs, appendFrame]
  simp only [Nat.not_lt.mpr hr, if_false]
  rfl

/-- Removing what is not there is no change, unless the log is stuck. -/
theorem delete_cases (key : String) (s : LogStore) :
    (key ∈ s.records ∧ s.delete key = s.record (.delete key)) ∨
    (s.stuck = true ∧ ∃ e, s.delete key = .fail e s) ∨
    (key ∉ s.records ∧ s.delete key = .ok () s) := by
  have hd : s.delete key = if s.stuck then .fail (.backend .stuck) s
      else if key ∈ s.records then s.record (.delete key) else .ok () s := rfl
  rw [hd]
  split
  · rename_i hs
    exact .inr (.inl ⟨hs, _, rfl⟩)
  · split
    · rename_i hk
      exact .inl ⟨hk, rfl⟩
    · rename_i hk
      exact .inr (.inr ⟨hk, rfl⟩)

/-! ## Compaction -/

/-- The frames of some entries, if none of them is too long. -/
theorem exists_frames_of_mapM {es : List Entry} {chunks : List (List UInt8)}
    (h : es.mapM Frame.ofEntry? = .ok chunks) :
    ∃ frames, frames.map Framed.bytes = chunks ∧ contents frames = es := by
  induction es generalizing chunks with
  | nil =>
    cases h
    exact ⟨[], rfl, rfl⟩
  | cons e es ih =>
    obtain ⟨chunk, more, he, hs, rfl⟩ := Lists.mapM_cons_eq_ok.mp h
    obtain ⟨frames, hb, hc⟩ := ih hs
    obtain ⟨hl, rfl⟩ := Frame.ofEntry?_eq_ok.mp he
    exact ⟨.ofEntry e hl :: frames, by rw [List.map_cons, hb]; rfl, by rw [← hc]; rfl⟩

theorem exists_frames_of_compacted {bytes : List UInt8} (h : s.compacted = .ok bytes) :
    ∃ frames, joined frames = bytes ∧
      contents frames = s.records.values.map fun r => ⟨s.disk.now, .write r⟩ := by
  let es : List Entry := s.records.values.map fun r => ⟨s.disk.now, .write r⟩
  have he : es.mapM Frame.ofEntry? =
      s.records.values.mapM fun r => Frame.ofEntry? ⟨s.disk.now, .write r⟩ := List.mapM_map
  rw [compacted, ← he] at h
  cases hm : es.mapM Frame.ofEntry? with
  | error e =>
    rw [hm] at h
    cases h
  | ok chunks =>
    rw [hm] at h
    cases h
    obtain ⟨frames, rfl, hc⟩ := exists_frames_of_mapM hm
    exact ⟨frames, rfl, hc⟩

/-- **A compacted log is made of one frame for each record.** -/
theorem made_rewrite (h : Made frames s) :
    (∃ more, s.rewrite.result = .ok () ∧ s.rewrite.state.stuck = s.stuck ∧
      Made more s.rewrite.state) ∨
    (∃ e, s.rewrite.result = .error e) ∧ s.rewrite.state = s := by
  unfold rewrite
  cases hc : s.compacted with
  | error e => exact .inr ⟨⟨e, rfl⟩, rfl⟩
  | ok bytes =>
    dsimp only
    split
    · obtain ⟨more, rfl, he⟩ := exists_frames_of_compacted hc
      refine .inl ⟨more, rfl, rfl, ⟨[], ?_, .inl rfl, fun _ => rfl⟩, rfl, ?_, ?_⟩
      · show (joined more).toByteArray.data.toList = _
        rw [List.data_toByteArray, List.append_nil]
      · show s.records = _
        rw [he, Replay.applyAll_writes h.keyed]
      · show s.records.size = _
        rw [← Framed.length_contents, he, List.length_map, Dict.length_values]
    · exact .inr ⟨⟨_, rfl⟩, rfl⟩

/-! ## Compacting and flushing change no record -/

theorem records_rewrite (s : LogStore) : s.rewrite.state.records = s.records := by
  unfold rewrite
  split
  · rfl
  · split <;> rfl

theorem records_compact (s : LogStore) : s.compact.state.records = s.records := by
  unfold compact whenUsable
  split
  · rfl
  · exact records_rewrite s

theorem stuck_compact (s : LogStore) : s.compact.state.stuck = s.stuck := by
  unfold compact whenUsable rewrite
  split
  · rfl
  · split
    · rfl
    · split <;> rfl

theorem records_flush (s : LogStore) : s.flush.state.records = s.records := by
  unfold flush whenUsable
  dsimp only
  split
  · rfl
  · split
    · rfl
    · split
      · exact records_compact s
      · rfl

end RecordStore.LogStore
