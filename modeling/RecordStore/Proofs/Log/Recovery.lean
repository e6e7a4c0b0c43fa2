import RecordStore.Proofs.Log.Store

/-!
# What is found in any bytes

A log can be opened on any bytes. What is a frame does not depend on how it is looked for: it is a
payload that is an entry, in its wrapping. Opening a log finds as many frames in a row as there are,
keeps them, and cuts off what is behind them. It does not fail, and it is done only once: what it
leaves is all frames.

* `Frame.Holds`: bytes that are the frame of an entry. `Frames`: those of several in a row.
* `Replay.of_frame_between`: **the frame that is written of an entry is read back as the entry**
  behind any frames and in front of any bytes.
* `Replay.append_of_joined`: frames at the start of a log are among those that are replayed.
* `recover_events`: what is noted when a log is opened.
* `Opened`: what opening a log comes to. `opened_recover`: **it comes to this on any bytes.**
* `openAt_file`: **a log of any bytes can be opened, and then nothing is wrong with its file.**
-/

namespace RecordStore

open Framed (joined contents)
open Replay (Tail applyAll)

/-- The frame of an entry: checksum, length and terminator are those of a payload that is one. -/
def Frame.Holds (e : Entry) (bytes : List UInt8) : Prop :=
  ∃ payload, payload.length ≤ maxPayload ∧ Entry.decode? payload = some e ∧ bytes = wrap payload

theorem Framed.holds (f : Framed) : Frame.Holds f.entry f.bytes := by
  obtain ⟨payload, hl, hd, hb⟩ := Frame.next_eq_ok_iff.mp f.next_bytes
  exact ⟨payload, hl, hd, by rw [hb, List.append_nil]⟩

theorem Frame.Holds.exists_framed {e : Entry} {bytes : List UInt8} (h : Frame.Holds e bytes) :
    ∃ f : Framed, f.entry = e ∧ f.bytes = bytes := by
  obtain ⟨payload, hl, hd, rfl⟩ := h
  exact ⟨⟨_, e, next_eq_ok_iff.mpr ⟨payload, hl, hd, (List.append_nil _).symm⟩⟩, rfl, rfl⟩

/-- Frames in a row, and their entries. -/
inductive Frames : List Entry → List UInt8 → Prop where
  | nil : Frames [] []
  | cons {e : Entry} {frame : List UInt8} {es : List Entry} {bytes : List UInt8}
      (head : Frame.Holds e frame) (tail : Frames es bytes) : Frames (e :: es) (frame ++ bytes)

namespace Frames

theorem of_framed (frames : List Framed) : Frames (contents frames) (joined frames) := by
  induction frames with
  | nil => exact .nil
  | cons f frames ih => exact .cons f.holds ih

theorem exists_framed {es : List Entry} {bytes : List UInt8} (h : Frames es bytes) :
    ∃ frames, contents frames = es ∧ joined frames = bytes := by
  induction h with
  | nil => exact ⟨[], rfl, rfl⟩
  | cons head _ ih =>
    obtain ⟨f, rfl, rfl⟩ := head.exists_framed
    obtain ⟨frames, rfl, rfl⟩ := ih
    exact ⟨f :: frames, rfl, rfl⟩

end Frames

namespace Replay

variable {rest : List UInt8}

/-- Replay goes no further than a flaw. -/
theorem of_flawed {flaw : Flaw} (hr : rest ≠ []) (h : Frame.next rest = .error flaw) :
    of rest = ⟨[], rest, some flaw⟩ := by
  rw [of, if_neg hr]
  split
  · rename_i hf
    rw [h] at hf
    cases hf
    rfl
  · rename_i hn
    rw [h] at hn
    cases hn

/-- **The frame that is written of an entry is read back as the entry**, behind any frames and in
front of any bytes. Reading goes on at the byte behind its terminator. -/
theorem of_frame_between {e : Entry} (h : e.encode.length ≤ Frame.maxPayload) :
    ∃ frame, Frame.ofEntry? e = .ok frame ∧ frame.length = e.encode.length + 9 ∧
      frame.getLast? = some Frame.terminator ∧
      ∀ (es : List Entry) (before after : List UInt8), Frames es before →
        Frame.next (frame ++ after) = .ok (e, after) ∧
        of (before ++ (frame ++ after)) =
          ⟨es ++ e :: (of after).entries, (of after).rest, (of after).flaw⟩ ∧
        (of (before ++ (frame ++ after))).records =
          applyAll (e.operation.apply (applyAll ∅ es)) (of after).entries := by
  let f : Framed := .ofEntry e h
  have hlast : f.bytes.getLast? = some Frame.terminator := by
    show (Frame.wrap e.encode).getLast? = _
    simp [Frame.wrap]
  refine ⟨f.bytes, if_pos h, Frame.length_wrap _, hlast, fun es before after hb => ?_⟩
  obtain ⟨frames, rfl, rfl⟩ := hb.exists_framed
  have ho : of (joined frames ++ (f.bytes ++ after)) =
      ⟨contents frames ++ e :: (of after).entries, (of after).rest, (of after).flaw⟩ := by
    rw [of_joined_append, of_append]
    rfl
  refine ⟨f.next_append after, ho, ?_⟩
  rw [ho, records, applyAll_append]
  rfl

/-- A record written behind a deletion and in front of what is no frame. -/
theorem of_frame_between_deletion :
    let deletion : Entry := ⟨-1, .delete "a\n"⟩
    let e : Entry := ⟨0, .write default⟩
    e.encode.length ≤ Frame.maxPayload ∧
      of (Frame.wrap deletion.encode ++ (Frame.wrap e.encode ++ [0, 0])) =
        ⟨[deletion, e], [0, 0], some .header⟩ := by
  intro deletion e
  have hl : e.encode.length ≤ Frame.maxPayload := by decide +kernel
  have hd : deletion.encode.length ≤ Frame.maxPayload := by decide +kernel
  have hb : Frames [deletion] (Frame.wrap deletion.encode ++ []) :=
    .cons ⟨_, hd, Entry.decode?_encode deletion, rfl⟩ .nil
  rw [List.append_nil] at hb
  have ho : of [0, 0] = ⟨[], [0, 0], some .header⟩ := of_flawed (by decide) rfl
  obtain ⟨frame, hf, -, -, hbetween⟩ := of_frame_between hl
  obtain rfl : Frame.wrap e.encode = frame := by
    rw [Frame.ofEntry?, if_pos hl] at hf
    exact Except.ok.inj hf
  obtain ⟨-, h, -⟩ := hbetween [deletion] _ [0, 0] hb
  rw [h, ho]
  exact ⟨hl, rfl⟩

/-- **Frames at the start of a log are the first that are replayed.** -/
theorem append_of_joined {first frames : List Framed} {more : List UInt8}
    (h : joined first ++ more = joined frames ++ rest) (hr : Tail rest) :
    ∃ others, joined frames = joined first ++ joined others ∧
      contents frames = contents first ++ contents others := by
  -- What is behind the frames at the start is frames and the same tail.
  obtain ⟨others, tail, rfl, ht⟩ := exists_joined_append more
  rw [← List.append_assoc, ← Framed.joined_append] at h
  have hrest : tail = rest := by
    rw [← rest_joined_append (first ++ others) ht, h, rest_joined_append frames hr]
  refine ⟨others, ?_, ?_⟩
  · rw [hrest, Framed.joined_append] at h
    exact (List.append_cancel_right h).symm
  · rw [← Framed.contents_append, ← entries_joined_append frames hr, ← h,
      entries_joined_append _ ht]

end Replay

namespace LogStore

/-- What opening a log on some bytes comes to: it holds the entries `es`, keeps the bytes `valid`
and cuts off `rest`. -/
structure Opened (bytes : List UInt8) (es : List Entry) (valid rest : List UInt8) (s : LogStore)
    (events : List Event) : Prop where
  bytes_eq : bytes = valid ++ rest
  /-- What is kept is the frames of the entries. -/
  frames : Frames es valid
  /-- There are no more frames than these. -/
  longest : ∀ {es' : List Entry} {valid' : List UInt8}, Frames es' valid' → valid' <+: bytes →
    es' <+: es ∧ valid' <+: valid
  records_eq : s.records = applyAll ∅ es
  entryCount_eq : s.entryCount = es.length
  file_eq : s.file.data.toList = valid
  boundary_eq : s.boundary = valid.length
  stuck_eq : s.stuck = false
  /-- Nothing is said of a log that is kept as it is. -/
  quiet : rest = [] → events = []
  /-- What is wrong behind the frames is said once, and then that it was cut off. -/
  warned : rest ≠ [] → ∃ flaw, Frame.next rest = .error flaw ∧
    events = [.replayStopped flaw, .tailCut] ∧
    events.map Event.line =
      [s!"WARN {flaw.message}; stopping replay", "WARN truncating damaged log tail"]

/-- **What is noted when a log is opened**: the flaw behind the frames, and that all from there on
was cut off. -/
theorem recover_events {frames : List Framed} {rest : List UInt8} {content : ByteArray}
    (h : content.data.toList = joined frames ++ rest) (hr : Tail rest) :
    (rest = [] → (recover content).2 = []) ∧
      (rest ≠ [] → ∃ flaw, Frame.next rest = .error flaw ∧
        (recover content).2 = [.replayStopped flaw, .tailCut]) := by
  have hrest : (Replay.of content.data.toList).rest = rest := by
    rw [h, Replay.rest_joined_append frames hr]
  have hflaw : (Replay.of content.data.toList).flaw = (Replay.of rest).flaw := by
    rw [h, Replay.of_joined_append]
  have hsize : content.size = (joined frames).length + rest.length := by
    rw [← List.length_append, ← h]
    rfl
  rw [recover, hrest, hflaw]
  constructor
  · rintro rfl
    have hcut : ¬ content.size - 0 < content.size := Nat.lt_irrefl _
    simp only [Replay.of_nil, List.length_nil, hcut, if_false, Option.toList_none, List.map_nil,
      List.append_nil]
  · intro hn
    obtain ⟨flaw, hf⟩ := hr.resolve_left hn
    have hpos : 0 < rest.length := List.length_pos_iff.mpr hn
    have hcut : content.size - rest.length < content.size := by omega
    refine ⟨flaw, hf, ?_⟩
    simp only [Replay.of_flawed hn hf, hcut, if_true, Option.toList_some, List.map_cons,
      List.map_nil, List.cons_append, List.nil_append]

/-- **What opening a log comes to, on any bytes.** -/
theorem opened_recover (content : ByteArray) :
    ∃ es valid rest, Opened content.data.toList es valid rest (recover content).1
      (recover content).2 := by
  obtain ⟨frames, rest, h, hr⟩ := Replay.exists_joined_append content.data.toList
  obtain ⟨hm, hs⟩ := made_recover h hr
  obtain ⟨hquiet, hwarned⟩ := recover_events h hr
  refine ⟨contents frames, joined frames, rest, h, .of_framed frames, fun hf hp => ?_,
    hm.records_eq, by rw [hm.entryCount_eq, Framed.length_contents], hm.toList_file hs,
    hm.boundary_eq, hs, hquiet, fun hn => ?_⟩
  · obtain ⟨first, rfl, rfl⟩ := hf.exists_framed
    obtain ⟨more, hp⟩ := hp
    obtain ⟨others, hj, hc⟩ := Replay.append_of_joined (hp.trans h) hr
    exact ⟨⟨contents others, hc.symm⟩, ⟨joined others, hj.symm⟩⟩
  · obtain ⟨flaw, hf, he⟩ := hwarned hn
    exact ⟨flaw, hf, he, by rw [he]; rfl⟩

/-- **A log of any bytes can be opened, and what is left of its file can be opened again.** The
second time nothing is cut off, nothing is said, and everything is as after the first time. -/
theorem openAt_file (content : ByteArray) :
    ∃ s events es valid rest, openAt (.file content) = .ok (s, events) ∧
      Opened content.data.toList es valid rest s events ∧
      openAt (.file s.file) = .ok (s, []) := by
  obtain ⟨es, valid, rest, h⟩ := opened_recover content
  obtain ⟨frames, hm, hs⟩ := exists_made_recover content
  have hagain : recover (recover content).1.file = ((recover content).1, []) :=
    reopen_eq_of_made hm hs
  exact ⟨_, _, es, valid, rest, rfl, h, congrArg Except.ok hagain⟩

end LogStore

end RecordStore
