import RecordStore.Proofs.Json.Control
import RecordStore.Proofs.Log.Crash
import RecordStore.Proofs.Log.Crc32

/-!
# Damage to a frame is found

A frame that the log has written is no frame any more when one byte of its checksum, its payload or
its terminator is another, whatever the payload is. Nor is it when its length is less: the frame
would have to end inside the payload, and no entry is written with a line feed in it. So a log with
a frame damaged in this way is read up to that frame and no further.

* `Harm`: one byte that is another, or another length. `Harm.Hits`: that it is where it is found.
* `flawed_harm`: **a frame that was damaged is none.**
* `made_harmed`, `recover_harmed`: **what is left of a log with a damaged frame are the frames in
  front of it.**
-/

namespace RecordStore

open Framed (joined contents)
open Replay (applyAll)

/-- An entry is written on a single line. -/
theorem Entry.noControl_encode (e : Entry) : Json.NoControl e.encode :=
  Json.noControl_write e.standard_toJson

/-- Damage to a frame. -/
inductive Harm where
  /-- The byte at a place is another. -/
  | byte (place : Nat) (value : UInt8)
  /-- The length is another. -/
  | length (size : UInt32)

namespace Harm

/-- Bytes that begin with a frame, after damage to it. -/
def apply : Harm → List UInt8 → List UInt8
  | byte place value, bytes => bytes.set place value
  | length size, bytes => bytes.take 4 ++ (Frame.word size ++ bytes.drop 8)

/-- That the checksum, the payload or the terminator of a frame has another byte, or its length is
less than it was. -/
def Hits (frame : List UInt8) : Harm → Prop
  | byte place value => (place < 4 ∨ 8 ≤ place) ∧ ∃ b, frame[place]? = some b ∧ value ≠ b
  | length size => ∃ checksum stored rest,
    Frame.header? frame = some (checksum, stored, rest) ∧ size < stored

/-- Damage to a frame does nothing to what is behind it. -/
theorem Hits.apply_append {harm : Harm} {frame : List UInt8} (h : harm.Hits frame)
    (rest : List UInt8) : harm.apply (frame ++ rest) = harm.apply frame ++ rest := by
  cases harm with
  | byte place value =>
    obtain ⟨-, b, hb, -⟩ := h
    obtain ⟨hp, -⟩ := List.getElem?_eq_some_iff.mp hb
    exact List.set_append_left place value hp
  | length size =>
    obtain ⟨checksum, stored, more, hh, -⟩ := h
    have hl : 8 ≤ frame.length := by
      rw [Frame.length_of_header? hh]
      exact Nat.le_add_right 8 _
    rw [apply, apply, List.take_append_of_le_length (by omega),
      List.drop_append_of_le_length hl, List.append_assoc, List.append_assoc]

end Harm

namespace Frame

/-- Bytes with the parts of a frame are none when its terminator or its checksum is wrong. -/
theorem flawed_of_parts {c n : UInt32} {payload : List UInt8} {last : UInt8}
    (hn : n.toNat = payload.length) (h : last ≠ terminator ∨ crc32 payload ≠ c)
    (rest : List UInt8) :
    Flawed (word c ++ (word n ++ (payload ++ last :: rest))) := by
  have hs := shape_of_header (header?_word c n (payload ++ last :: rest)) hn
  cases hx : next (word c ++ (word n ++ (payload ++ last :: rest))) with
  | error flaw => exact ⟨flaw, hx⟩
  | ok r =>
    obtain ⟨s, hs', hr⟩ := next_eq_ok.mp hx
    rw [hs] at hs'
    cases hs'
    obtain ⟨hl, hc, -⟩ := Shape.read_eq_ok.mp hr
    exact absurd hc (h.resolve_left (not_not.mpr hl))

variable {payload : List UInt8}

theorem toNat_length (hl : payload.length ≤ maxPayload) :
    (UInt32.ofNat payload.length).toNat = payload.length :=
  UInt32.toNat_ofNat_of_lt' (Nat.lt_succ_of_le hl)

/-! ## Another byte -/

variable {value b : UInt8}

theorem flawed_set_checksum (hl : payload.length ≤ maxPayload) {i : Nat} (hi : i < 4)
    (hb : (wrap payload)[i]? = some b) (hv : value ≠ b) (rest : List UInt8) :
    Flawed ((wrap payload).set i value ++ rest) := by
  have hi : i < (word (crc32 payload)).length := hi
  obtain ⟨c, hc⟩ : ∃ c, (word (crc32 payload)).set i value = word c :=
    exists_word List.length_set
  have hne : crc32 payload ≠ c := by
    rintro rfl
    have hset := List.getElem?_set_self (a := value) hi
    rw [wrap, List.getElem?_append_left hi] at hb
    rw [hc, hb, Option.some.injEq] at hset
    exact hv hset.symm
  have h : Flawed (word c ++ (word _ ++ (payload ++ terminator :: rest))) :=
    flawed_of_parts (toNat_length hl) (.inr hne) rest
  rw [wrap, List.set_append_left i value hi, hc]
  simpa using h

/-- What is changed behind the checksum and the length is the payload or the terminator. -/
theorem set_wrap (payload : List UInt8) (i : Nat) (value : UInt8) :
    (wrap payload).set (i + 8) value = word (crc32 payload) ++
      (word (UInt32.ofNat payload.length) ++ (payload ++ [terminator]).set i value) := by
  simp [wrap, word]

theorem flawed_set_payload (hl : payload.length ≤ maxPayload) {i : Nat} (hi : i < payload.length)
    (hv : value ≠ payload[i]) (rest : List UInt8) :
    Flawed ((wrap payload).set (i + 8) value ++ rest) := by
  have hcrc : crc32 (payload.set i value) ≠ crc32 payload := crc32_set_ne hi hv
  have h : Flawed (word (crc32 payload) ++
      (word _ ++ (payload.set i value ++ terminator :: rest))) :=
    flawed_of_parts ((toNat_length hl).trans List.length_set.symm) (.inr hcrc) rest
  rw [set_wrap, List.set_append_left i value hi]
  simpa using h

theorem flawed_set_terminator (hl : payload.length ≤ maxPayload) (hv : value ≠ terminator)
    (rest : List UInt8) : Flawed ((wrap payload).set (payload.length + 8) value ++ rest) := by
  have h : Flawed (word (crc32 payload) ++ (word _ ++ (payload ++ value :: rest))) :=
    flawed_of_parts (toNat_length hl) (.inl hv) rest
  rw [set_wrap, List.set_append_right _ value (Nat.le_refl _), Nat.sub_self, List.set_cons_zero]
  simpa using h

/-- **A frame with another byte in its checksum, its payload or its terminator is none.** -/
theorem flawed_set (hl : payload.length ≤ maxPayload) {place : Nat} (hp : place < 4 ∨ 8 ≤ place)
    (hb : (wrap payload)[place]? = some b) (hv : value ≠ b) (rest : List UInt8) :
    Flawed ((wrap payload).set place value ++ rest) := by
  rcases hp with hp | hp
  · exact flawed_set_checksum hl hp hb hv rest
  · obtain ⟨i, rfl⟩ := Nat.exists_eq_add_of_le' hp
    have hget : (payload ++ [terminator])[i]? = some b := by simpa [wrap, word] using hb
    rcases Nat.lt_trichotomy i payload.length with hi | rfl | hi
    · rw [List.getElem?_append_left hi, List.getElem?_eq_getElem hi, Option.some.injEq] at hget
      exact flawed_set_payload hl hi (hget ▸ hv) rest
    · rw [List.getElem?_concat_length, Option.some.injEq] at hget
      exact flawed_set_terminator hl (hget ▸ hv) rest
    · rw [List.getElem?_eq_none (by simpa using Nat.succ_le_of_lt hi)] at hget
      cases hget

/-! ## Another length -/

/-- **A frame whose length is less than its payload is none**, if no line feed is in the
payload. -/
theorem flawed_length (hline : terminator ∉ payload) {size : UInt32}
    (hs : size.toNat < payload.length) (rest : List UInt8) :
    Flawed ((wrap payload).take 4 ++ (word size ++ (wrap payload).drop 8) ++ rest) := by
  have htake : size.toNat = (payload.take size.toNat).length :=
    (List.length_take_of_le (Nat.le_of_lt hs)).symm
  have hlast : payload[size.toNat] ≠ terminator := fun h => hline (h ▸ List.getElem_mem hs)
  have h : Flawed (word (crc32 payload) ++ (word size ++ (payload.take size.toNat ++
      payload[size.toNat] :: (payload.drop (size.toNat + 1) ++ terminator :: rest)))) :=
    flawed_of_parts htake (.inl hlast) _
  have hsplit : payload.take size.toNat ++ payload[size.toNat] ::
      (payload.drop (size.toNat + 1) ++ terminator :: rest) = payload ++ terminator :: rest := by
    rw [← List.cons_append, ← List.append_assoc, List.getElem_cons_drop, List.take_append_drop]
  rw [hsplit] at h
  simpa [wrap, word] using h

end Frame

/-- **A frame of an entry is none after harm.** -/
theorem flawed_harm {e : Entry} (hl : e.encode.length ≤ Frame.maxPayload) {harm : Harm}
    (h : harm.Hits (Frame.wrap e.encode)) (rest : List UInt8) :
    Frame.Flawed (harm.apply (Frame.wrap e.encode) ++ rest) := by
  cases harm with
  | byte place value =>
    obtain ⟨hp, b, hb, hv⟩ := h
    exact Frame.flawed_set hl hp hb hv rest
  | length size =>
    obtain ⟨checksum, stored, more, hh, hs⟩ := h
    rw [Frame.wrap, Frame.header?_word, Option.some.injEq, Prod.mk.injEq, Prod.mk.injEq] at hh
    refine Frame.flawed_length (e.noControl_encode.not_mem (by decide)) ?_ rest
    rw [← hh.2.1, UInt32.lt_iff_toNat_lt,
      UInt32.toNat_ofNat_of_lt' (Nat.lt_succ_of_le hl)] at hs
    exact hs

namespace LogStore

/-- A frame that was written is the frame of an entry that is not too long for one. -/
theorem AsWritten.length_encode_le {f : Framed} (h : AsWritten f) :
    f.entry.encode.length ≤ Frame.maxPayload := by
  obtain ⟨payload, hl, -, hf⟩ := Frame.next_eq_ok_iff.mp f.next_bytes
  rw [List.append_nil, h] at hf
  have := congrArg List.length hf
  rw [Frame.length_wrap, Frame.length_wrap] at this
  omega

/-- **A log with a damaged frame is made of the frames in front of it.** -/
theorem made_harmed {frames others : List Framed} {f : Framed} {s : LogStore}
    (h : Made (frames ++ f :: others) s) (hf : AsWritten f) {harm : Harm}
    (hh : harm.Hits (Frame.wrap f.entry.encode)) :
    let bytes := s.file.data.toList
    let start := (joined frames).length
    let opened := (recover (bytes.take start ++ harm.apply (bytes.drop start)).toByteArray).1
    (∃ rest, bytes.drop start = Frame.wrap f.entry.encode ++ rest) ∧
      bytes.take start = joined frames ∧ Made frames opened ∧ opened.stuck = false := by
  intro bytes start opened
  obtain ⟨rest, hfile, -, -⟩ := h.file_eq
  have hbytes : bytes =
      joined frames ++ (Frame.wrap f.entry.encode ++ (joined others ++ rest)) := by
    rw [show bytes = _ from hfile, Framed.joined_append, Framed.joined_cons, hf,
      List.append_assoc, List.append_assoc]
  have htake : bytes.take start = joined frames := by rw [hbytes, List.take_left]
  have hdrop : bytes.drop start = Frame.wrap f.entry.encode ++ (joined others ++ rest) := by
    rw [hbytes, List.drop_left]
  have hcut : (bytes.take start ++ harm.apply (bytes.drop start)).toByteArray.data.toList =
      joined frames ++ (harm.apply (Frame.wrap f.entry.encode) ++ (joined others ++ rest)) := by
    rw [htake, hdrop, hh.apply_append, List.data_toByteArray]
  exact ⟨⟨_, hdrop⟩, htake,
    made_recover hcut (.inr (flawed_harm hf.length_encode_le hh (joined others ++ rest)))⟩

/-- **What is left of a log with a damaged frame.** The log was opened on anything and used in any
way, then changed in any way, and one of the frames that these changes appended is damaged. The
file is cut at the start of this frame, and what was in front of it is all there. -/
theorem recover_harmed (content : ByteArray) (steps : List (Moment × LogStep))
    (changes : List (Moment × Operation)) {k : Nat} {e : Entry} {harm : Harm}
    (hk : (((recover content).1.run steps).appended changes)[k]? = some e)
    (hh : harm.Hits (Frame.wrap e.encode)) :
    let s := (recover content).1.run steps
    let before := (s.appended changes).take k
    let bytes := (s.changeAll changes).file.data.toList
    let start := s.boundary + (written before).length
    let opened := (recover (bytes.take start ++ harm.apply (bytes.drop start)).toByteArray).1
    (∃ rest, bytes.drop start = Frame.wrap e.encode ++ rest) ∧
      opened.records = applyAll s.records before ∧ opened.entryCount = s.entryCount + k ∧
      opened.file.data.toList = bytes.take start ∧ opened.boundary = start := by
  intro s before bytes start opened
  obtain ⟨frames, hs⟩ := (sound_recover content).run steps
  obtain ⟨more, hm, hc, hw⟩ := made_changeAll hs changes
  rw [← hc, contents, List.getElem?_map, Option.map_eq_some_iff] at hk
  obtain ⟨f, hk, rfl⟩ := hk
  obtain ⟨hlt, hget⟩ := List.getElem?_eq_some_iff.mp hk
  have hbefore : contents (more.take k) = before := by
    rw [contents, List.map_take, ← contents, hc]
  have hstart : (joined (frames ++ more.take k)).length = start := by
    rw [Framed.joined_append, List.length_append, ← hs.boundary_eq,
      joined_eq_written fun g hg => hw g (List.mem_of_mem_take hg), hbefore]
  -- The frames of the log are those in front of the damaged one, that one, and the others.
  have hsplit : frames ++ more = (frames ++ more.take k) ++ f :: more.drop (k + 1) := by
    rw [← hget, List.getElem_cons_drop, List.append_assoc, List.take_append_drop]
  rw [hsplit] at hm
  obtain ⟨hdrop, htake, hmade, hu⟩ := made_harmed hm (hw f (List.mem_of_getElem? hk)) hh
  rw [hstart] at hdrop htake hmade hu
  refine ⟨hdrop, ?_, ?_, ?_, ?_⟩
  · rw [hmade.records_eq, Framed.contents_append, Replay.applyAll_append, ← hs.records_eq,
      hbefore]
  · rw [hmade.entryCount_eq, List.length_append, hs.entryCount_eq,
      List.length_take_of_le (Nat.le_of_lt hlt)]
  · rw [hmade.toList_file hu, ← htake]
  · rw [hmade.boundary_eq, hstart]

theorem recover_empty : recover .empty = (∅, []) := by
  have ho : Replay.of (ByteArray.empty).data.toList = ⟨[], [], none⟩ := Replay.of_nil
  rw [recover, ho]
  rfl

/-- Of a log where a record was written and deleted, and the payload of the deletion begins with
another byte, the record is left. -/
theorem recover_harmed_deletion :
    ∃ changes : List (Moment × Operation), ∃ k,
      let s := (recover .empty).1.run []
      let bytes := (s.changeAll changes).file.data.toList
      let start := s.boundary + (written ((s.appended changes).take k)).length
      let opened := (recover (bytes.take start ++
        (Harm.byte 8 0).apply (bytes.drop start)).toByteArray).1
      (s.appended changes)[k]? = some ⟨0, .delete ""⟩ ∧
        opened.records = applyAll s.records [⟨0, .write default⟩] ∧ opened.entryCount = 1 := by
  have hes : ((recover .empty).1.run []).appended [({}, .write default), ({}, .delete "")] =
      [⟨0, .write default⟩, ⟨0, .delete ""⟩] := by
    rw [recover_empty]
    decide +kernel
  have hk : (((recover .empty).1.run []).appended
      [({}, .write default), ({}, .delete "")])[1]? = some ⟨0, .delete ""⟩ := by
    rw [hes]
    rfl
  have hh : (Harm.byte 8 0).Hits (Frame.wrap (Entry.encode ⟨0, .delete ""⟩)) :=
    ⟨.inr (Nat.le_refl 8), 0x7B, by decide +kernel, by decide⟩
  obtain ⟨-, hrecords, hcount, -⟩ := recover_harmed .empty [] _ hk hh
  refine ⟨_, 1, hk, hrecords.trans (by rw [hes]; rfl), hcount.trans ?_⟩
  rw [recover_empty]
  rfl

end LogStore

end RecordStore
