import RecordStore.Proofs.Log.Recovery

/-!
# Logs behind one another

What is read of a frame does not depend on where it stands. So if a log is good up to its last byte,
any bytes may come behind it: first what is in the log is read, all of it, and then what is read of
the bytes alone.

* `Replay.validLength`: how many bytes of a log are good frames.
* `Replay.validLength_eq_length_iff`: the logs that are good up to the last byte.
  `LogStore.boundary_recover_eq_size_iff`: nothing is cut off them.
* `Replay.of_append_of_valid`: **two logs are read one after the other** if the first is such a log.
* `LogStore.recover_append`: **what opening both comes to**, from what opening each comes to.
-/

namespace RecordStore

open Framed (joined contents)
open Replay (Tail applyAll)

namespace Replay

/-- How many bytes from the first on are good frames. -/
def validLength (bytes : List UInt8) : Nat := bytes.length - (of bytes).rest.length

theorem validLength_joined_append (frames : List Framed) {rest : List UInt8} (h : Tail rest) :
    validLength (joined frames ++ rest) = (joined frames).length := by
  rw [validLength, rest_joined_append frames h, List.length_append, Nat.add_sub_cancel]

/-- A log is good up to its last byte just when it is frames and no tail. -/
theorem validLength_eq_length_iff {bytes : List UInt8} :
    validLength bytes = bytes.length ↔ ∃ frames, bytes = joined frames := by
  constructor
  · intro h
    obtain ⟨frames, rest, rfl, hr⟩ := exists_joined_append bytes
    rw [validLength_joined_append frames hr, List.length_append] at h
    obtain rfl : rest = [] := List.length_eq_zero_iff.mp (by omega)
    exact ⟨frames, List.append_nil _⟩
  · rintro ⟨frames, rfl⟩
    have h := validLength_joined_append frames (.inl rfl)
    rwa [List.append_nil] at h

/-- **Bytes behind a log that is good up to its last byte are read after it**, as they are read
alone. -/
theorem of_append_of_valid {first : List UInt8} (h : validLength first = first.length)
    (more : List UInt8) :
    of (first ++ more) =
      ⟨(of first).entries ++ (of more).entries, (of more).rest, (of more).flaw⟩ := by
  obtain ⟨frames, rfl⟩ := validLength_eq_length_iff.mp h
  rw [of_joined_append, of_joined]

theorem validLength_append {first : List UInt8} (h : validLength first = first.length)
    (more : List UInt8) :
    validLength (first ++ more) = first.length + validLength more := by
  have hle := length_rest_le more
  rw [validLength, validLength, of_append_of_valid h, List.length_append]
  dsimp only
  omega

end Replay

namespace LogStore

theorem boundary_recover (content : ByteArray) :
    (recover content).1.boundary = Replay.validLength content.data.toList := rfl

/-- Nothing is cut off a log just when it is frames and no tail. -/
theorem boundary_recover_eq_size_iff {content : ByteArray} :
    (recover content).1.boundary = content.size ↔
      ∃ frames, content.data.toList = joined frames := by
  rw [boundary_recover, ← Replay.validLength_eq_length_iff]
  rfl

theorem toList_append (first more : ByteArray) :
    (first ++ more).data.toList = first.data.toList ++ more.data.toList := by
  rw [ByteArray.data_append, Array.toList_append]

/-- **Opening a log that is good up to its last byte, with any bytes behind it.** All that was in
the log is there, and what is in the bytes comes after it. The bytes alone tell where the frames end
and what is wrong there. -/
theorem recover_append {first : ByteArray} (h : (recover first).1.boundary = first.size)
    (more : ByteArray) :
    let read (content : ByteArray) : Replay := .of content.data.toList
    (read (first ++ more)).entries = (read first).entries ++ (read more).entries ∧
    (read (first ++ more)).flaw = (read more).flaw ∧
    (recover (first ++ more)).1.entryCount =
      (recover first).1.entryCount + (recover more).1.entryCount ∧
    (recover (first ++ more)).1.boundary = first.size + (recover more).1.boundary ∧
    (recover (first ++ more)).1.records =
      applyAll (recover first).1.records (read more).entries ∧
    (recover (first ++ more)).2 = (recover more).2 := by
  intro read
  have hread : read (first ++ more) =
      ⟨(read first).entries ++ (read more).entries, (read more).rest, (read more).flaw⟩ := by
    show Replay.of _ = _
    rw [toList_append, Replay.of_append_of_valid h]
  have hentries : (read (first ++ more)).entries = (read first).entries ++ (read more).entries := by
    rw [hread]
  refine ⟨hentries, by rw [hread], ?_, ?_, ?_, ?_⟩
  · show (read (first ++ more)).entries.length = _
    rw [hentries, List.length_append]
    rfl
  · rw [boundary_recover, toList_append, Replay.validLength_append h]
    rfl
  · show applyAll ∅ (read (first ++ more)).entries = _
    rw [hentries, Replay.applyAll_append]
    rfl
  · -- What is noted is told by the tail, and both have the same.
    obtain ⟨frames, hfirst⟩ := boundary_recover_eq_size_iff.mp h
    obtain ⟨others, rest, hmore, hr⟩ := Replay.exists_joined_append more.data.toList
    have hwhole : (first ++ more).data.toList = joined (frames ++ others) ++ rest := by
      rw [toList_append, hfirst, hmore, Framed.joined_append, List.append_assoc]
    obtain ⟨hquiet, hwarned⟩ := recover_events hmore hr
    obtain ⟨hquiet', hwarned'⟩ := recover_events hwhole hr
    by_cases hn : rest = []
    · rw [hquiet hn, hquiet' hn]
    · obtain ⟨flaw, hf, he⟩ := hwarned hn
      obtain ⟨flaw', hf', he'⟩ := hwarned' hn
      rw [hf] at hf'
      cases hf'
      rw [he, he']

/-- Behind the log of one record comes its deletion, and a byte that begins no frame. -/
theorem recover_append_deletion :
    let first := (Frame.wrap (Entry.encode ⟨0, .write default⟩)).toByteArray
    let deletion := Frame.wrap (Entry.encode ⟨1, .delete ""⟩)
    let more := (deletion ++ [0]).toByteArray
    (recover first).1.boundary = first.size ∧
      (recover first).1.records[""]? = some default ∧
      (recover (first ++ more)).1.records[""]? = none ∧
      (recover (first ++ more)).1.entryCount = 2 ∧
      (recover (first ++ more)).1.boundary = first.size + deletion.length ∧
      (recover (first ++ more)).2 = [.replayStopped .header, .tailCut] := by
  intro first deletion more
  have hw : (Entry.encode ⟨0, .write default⟩).length ≤ Frame.maxPayload := by decide +kernel
  have hd : (Entry.encode ⟨1, .delete ""⟩).length ≤ Frame.maxPayload := by decide +kernel
  have hfirst : first.data.toList = joined [.ofEntry ⟨0, .write default⟩ hw] := by
    rw [List.data_toByteArray, Framed.joined_cons, Framed.joined_nil, List.append_nil]
    rfl
  have hmore : more.data.toList = joined [.ofEntry ⟨1, .delete ""⟩ hd] ++ [0] := by
    rw [List.data_toByteArray, Framed.joined_cons, Framed.joined_nil, List.append_nil]
    rfl
  have htail : Tail [0] := .inr ⟨.header, rfl⟩
  obtain ⟨hm, -⟩ := made_recover hmore htail
  have hevents : (recover more).2 = [.replayStopped .header, .tailCut] := by
    obtain ⟨flaw, hf, he⟩ := (recover_events hmore htail).2 (List.cons_ne_nil _ _)
    cases hf
    exact he
  have hb : (recover first).1.boundary = first.size :=
    boundary_recover_eq_size_iff.mpr ⟨_, hfirst⟩
  have hread : (Replay.of more.data.toList).entries = [⟨1, .delete ""⟩] := by
    rw [hmore, Replay.entries_joined_append _ htail]
    rfl
  obtain ⟨-, -, hcount, hboundary, hrecords, hnoted⟩ := recover_append hb more
  have hone : (recover first).1.records = applyAll ∅ [⟨0, .write default⟩] ∧
      (recover first).1.entryCount = 1 := by
    obtain ⟨hm, -⟩ := made_recover (hfirst.trans (List.append_nil _).symm) (.inl rfl)
    exact ⟨hm.records_eq, hm.entryCount_eq⟩
  refine ⟨hb, ?_, ?_, ?_, ?_, ?_⟩
  · rw [hone.1]
    exact Std.ExtTreeMap.getElem?_insert_self
  · rw [hrecords, hread]
    exact Std.ExtTreeMap.getElem?_erase_self
  · rw [hcount, hone.2, hm.entryCount_eq]
    rfl
  · have hbytes : (Framed.ofEntry ⟨1, .delete ""⟩ hd).bytes = deletion := rfl
    rw [hboundary, hm.boundary_eq, Framed.joined_cons, Framed.joined_nil, List.append_nil, hbytes]
  · rw [hnoted, hevents]

end LogStore

end RecordStore
