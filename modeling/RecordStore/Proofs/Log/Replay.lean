import Mathlib.Data.List.Induction
import RecordStore.Log.Replay
import RecordStore.Proofs.Log.Frame

/-!
# Replaying frames

Whatever the bytes of a log are, they are some good frames and a tail that begins with none. Replay
finds just these frames, and what it finds in the first bytes of a log are the frames that lie
within them.

* `Framed.joined`, `Framed.contents`: frames in a row, and what is in them.
* `of_joined_append`: frames in front of a log are replayed first.
* `exists_joined_append`: **every log is frames and a tail.**
* `exists_take`: **a log that is cut keeps the frames that lie within the cut**, and no more.
* `Live`: what is left of what was written. `getElem?_applyAll_iff`: **this is what is found.**
* `applyAll_writes`: a record written for each key gives the same records again.
-/

namespace RecordStore

namespace Framed

/-- The bytes of some frames. -/
def joined (frames : List Framed) : List UInt8 := frames.flatMap Framed.bytes

/-- What is in some frames. -/
def contents (frames : List Framed) : List Entry := frames.map Framed.entry

@[simp]
theorem joined_nil : joined [] = [] := rfl

@[simp]
theorem joined_cons (f : Framed) (frames : List Framed) :
    joined (f :: frames) = f.bytes ++ joined frames := rfl

@[simp]
theorem joined_append (frames more : List Framed) :
    joined (frames ++ more) = joined frames ++ joined more :=
  List.flatMap_append

@[simp]
theorem length_contents (frames : List Framed) : (contents frames).length = frames.length :=
  List.length_map _

@[simp]
theorem contents_append (frames more : List Framed) :
    contents (frames ++ more) = contents frames ++ contents more :=
  List.map_append

end Framed

open Framed (joined contents)

namespace Replay

/-! ## Frames and a tail -/

/-- What may come behind the last good frame of a log. -/
def Tail (bytes : List UInt8) : Prop := bytes = [] ∨ Frame.Flawed bytes

theorem Tail.of_append {bytes more : List UInt8} (h : Tail (bytes ++ more)) : Tail bytes := by
  rcases h with h | h
  · exact .inl (List.append_eq_nil_iff.mp h).1
  · exact .inr h.of_append

theorem of_nil : of [] = ⟨[], [], none⟩ := by
  rw [of, if_pos rfl]

theorem of_append (f : Framed) (more : List UInt8) :
    of (f.bytes ++ more) = { of more with entries := f.entry :: (of more).entries } := by
  have hn : f.bytes ++ more ≠ [] := fun h => f.bytes_ne_nil (List.append_eq_nil_iff.mp h).1
  rw [of, if_neg hn]
  split
  · rename_i flaw h
    rw [f.next_append] at h
    cases h
  · rename_i e rest h
    rw [f.next_append] at h
    cases h
    rfl

theorem of_joined_append (frames : List Framed) (more : List UInt8) :
    of (joined frames ++ more) =
      { of more with entries := contents frames ++ (of more).entries } := by
  induction frames with
  | nil => rfl
  | cons f frames ih =>
    rw [Framed.joined_cons, List.append_assoc, of_append, ih]
    rfl

theorem of_joined (frames : List Framed) : of (joined frames) = ⟨contents frames, [], none⟩ := by
  have h := of_joined_append frames []
  rw [of_nil, List.append_nil] at h
  rw [h, List.append_nil]

/-- Nothing of a tail is replayed. -/
theorem of_tail {bytes : List UInt8} (h : Tail bytes) :
    (of bytes).entries = [] ∧ (of bytes).rest = bytes := by
  rcases h with rfl | ⟨flaw, h⟩
  · rw [of_nil]
    exact ⟨rfl, rfl⟩
  · by_cases hb : bytes = []
    · subst hb
      rw [of_nil]
      exact ⟨rfl, rfl⟩
    · rw [of, if_neg hb]
      split
      · exact ⟨rfl, rfl⟩
      · rename_i hn
        rw [h] at hn
        cases hn

theorem entries_joined_append (frames : List Framed) {rest : List UInt8} (h : Tail rest) :
    (of (joined frames ++ rest)).entries = contents frames := by
  rw [of_joined_append, (of_tail h).1, List.append_nil]

theorem rest_joined_append (frames : List Framed) {rest : List UInt8} (h : Tail rest) :
    (of (joined frames ++ rest)).rest = rest := by
  rw [of_joined_append]
  exact (of_tail h).2

/-- **Every log is some frames and a tail.** -/
theorem exists_joined_append (bytes : List UInt8) :
    ∃ frames rest, bytes = joined frames ++ rest ∧ Tail rest := by
  fun_induction of bytes with
  | case1 => exact ⟨[], [], rfl, .inl rfl⟩
  | case2 bytes hb flaw h => exact ⟨[], bytes, rfl, .inr ⟨flaw, h⟩⟩
  | case3 bytes hb e tail h _ _ ih =>
    obtain ⟨chunk, rfl, hc⟩ := Frame.exists_of_next h
    obtain ⟨frames, rest, rfl, hr⟩ := ih
    exact ⟨⟨chunk, e, hc⟩ :: frames, rest, (List.append_assoc _ _ _).symm, hr⟩

/-! ## Cutting a log -/

/-- **The first bytes of a log hold the frames that end among them.** The frame at place `i` does
when the frames up to it are no longer than the cut. -/
theorem exists_take (frames : List Framed) {rest : List UInt8} (hr : Tail rest) (n : Nat) :
    ∃ kept ≤ frames.length,
      (∀ i < frames.length, i < kept ↔ (joined (frames.take (i + 1))).length ≤ n) ∧
      ∃ tail, Tail tail ∧ (joined frames ++ rest).take n = joined (frames.take kept) ++ tail := by
  induction frames generalizing n with
  | nil =>
    have ht : Tail (rest.take n ++ rest.drop n) := by rwa [List.take_append_drop]
    exact ⟨0, Nat.le_refl 0, fun i hi => absurd hi (Nat.not_lt_zero i), rest.take n,
      ht.of_append, rfl⟩
  | cons f frames ih =>
    by_cases hf : f.bytes.length ≤ n
    · obtain ⟨kept, hk, hi, tail, ht, he⟩ := ih (n - f.bytes.length)
      refine ⟨kept + 1, Nat.succ_le_succ hk, fun i hlt => ?_, tail, ht, ?_⟩
      · cases i with
        | zero => simpa using hf
        | succ i =>
          have := hi i (Nat.lt_of_succ_lt_succ hlt)
          simp only [List.take_succ_cons, Framed.joined_cons, List.length_append]
          omega
      · rw [Framed.joined_cons, List.append_assoc, List.take_append, List.take_of_length_le hf, he,
          List.take_succ_cons, Framed.joined_cons, List.append_assoc]
    · -- The cut falls into the first frame.
      have hs : f.bytes = f.bytes.take n ++ f.bytes.drop n := (List.take_append_drop n _).symm
      have hd : f.bytes.drop n ≠ [] := by
        intro h
        have := List.drop_eq_nil_iff.mp h
        omega
      refine ⟨0, Nat.zero_le _, fun i _ => ?_, f.bytes.take n, .inr (f.flawed_of_append hs hd), ?_⟩
      · simp only [List.take_succ_cons, Framed.joined_cons, List.length_append]
        omega
      · rw [Framed.joined_cons, List.append_assoc, List.take_append_of_le_length (by omega)]
        rfl

/-! ## What entries do -/

theorem applyAll_append (records : Dict Snapshot) (es more : List Entry) :
    applyAll records (es ++ more) = applyAll (applyAll records es) more :=
  List.foldl_append

end Replay

namespace Operation

/-- The key that it is about. -/
def key : Operation → String
  | write r => r.key
  | delete key => key

/-- What there is under this key afterwards. -/
def left? : Operation → Option Snapshot
  | write r => some r
  | delete _ => none

theorem getElem?_apply (operation : Operation) (records : Dict Snapshot) (key : String) :
    (operation.apply records)[key]? =
      if operation.key = key then operation.left? else records[key]? := by
  cases operation with
  | write r =>
    rw [apply, Std.ExtTreeMap.getElem?_insert]
    exact if_congr Std.compare_eq_iff_eq rfl rfl
  | delete k =>
    rw [apply, Std.ExtTreeMap.getElem?_erase]
    exact if_congr Std.compare_eq_iff_eq rfl rfl

end Operation

/-- **That a record is live** after some entries: it was written, and nothing was done to its key
after that. -/
def Live (es : List Entry) (r : Snapshot) : Prop :=
  ∃ before e after, es = before ++ e :: after ∧ e.operation = .write r ∧
    ∀ later ∈ after, later.operation.key ≠ r.key

namespace Live

variable {es : List Entry} {e : Entry} {r : Snapshot}

theorem of_write (h : e.operation = .write r) : Live (es ++ [e]) r :=
  ⟨es, e, [], rfl, h, List.forall_mem_nil _⟩

theorem append (h : Live es r) (hk : e.operation.key ≠ r.key) : Live (es ++ [e]) r := by
  obtain ⟨before, w, after, rfl, hw, ha⟩ := h
  refine ⟨before, w, after ++ [e], by simp, hw, ?_⟩
  exact List.forall_mem_append.mpr ⟨ha, List.forall_mem_singleton.mpr hk⟩

end Live

namespace Replay

variable {es : List Entry} {key : String} {r : Snapshot}

/-- A key that nothing is done to stays as it is. -/
theorem getElem?_applyAll_of_ne (h : ∀ e ∈ es, e.operation.key ≠ key) (records : Dict Snapshot) :
    (applyAll records es)[key]? = records[key]? := by
  induction es generalizing records with
  | nil => rfl
  | cons e es ih =>
    obtain ⟨he, hs⟩ := List.forall_mem_cons.mp h
    exact (ih hs _).trans ((e.operation.getElem?_apply records key).trans (if_neg he))

/-- **What is found after some entries is what is live.** -/
theorem getElem?_applyAll_iff : (applyAll ∅ es)[key]? = some r ↔ Live es r ∧ r.key = key := by
  constructor
  · intro h
    induction es using List.reverseRecOn with
    | nil => simp [applyAll] at h
    | append_singleton es e ih =>
      have hlast : (e.operation.apply (applyAll ∅ es))[key]? = some r := by
        rwa [applyAll_append] at h
      rw [Operation.getElem?_apply] at hlast
      split at hlast
      · rename_i hk
        cases ho : e.operation with
        | write w =>
          rw [ho] at hk hlast
          cases hlast
          exact ⟨.of_write ho, hk⟩
        | delete k =>
          rw [ho] at hlast
          cases hlast
      · rename_i hk
        obtain ⟨hl, rfl⟩ := ih hlast
        exact ⟨hl.append hk, rfl⟩
  · rintro ⟨⟨before, e, after, rfl, he, ha⟩, rfl⟩
    have hwritten : (e.operation.apply (applyAll ∅ before))[r.key]? = some r := by
      rw [Operation.getElem?_apply, he]
      exact if_pos rfl
    rw [applyAll_append]
    exact (getElem?_applyAll_of_ne ha _).trans hwritten

end Replay

/-- Records that are each kept under their own key. -/
def Keyed (records : Dict Snapshot) : Prop :=
  ∀ (key : String) (r : Snapshot), records[key]? = some r → r.key = key

namespace Keyed

theorem empty : Keyed ∅ := by
  intro key r h
  simp at h

theorem apply {records : Dict Snapshot} (h : Keyed records) (operation : Operation) :
    Keyed (operation.apply records) := by
  intro key r hr
  cases operation with
  | write w =>
    rw [Operation.apply, Std.ExtTreeMap.getElem?_insert] at hr
    split at hr
    · rename_i hk
      cases hr
      exact Std.compare_eq_iff_eq.mp hk
    · exact h key r hr
  | delete k =>
    rw [Operation.apply, Std.ExtTreeMap.getElem?_erase] at hr
    split at hr
    · cases hr
    · exact h key r hr

theorem applyAll {records : Dict Snapshot} (h : Keyed records) (es : List Entry) :
    Keyed (Replay.applyAll records es) := by
  induction es generalizing records with
  | nil => exact h
  | cons e es ih => exact ih (h.apply e.operation)

/-- The entries of the dictionary are its records with their keys. -/
theorem map_values {records : Dict Snapshot} (h : Keyed records) :
    records.values.map (fun r => (r.key, r)) = records.toList := by
  rw [Dict.values_eq, List.map_map]
  refine List.map_congr_left (fun entry he => ?_) |>.trans (List.map_id _)
  have := h entry.1 entry.2 (Std.ExtTreeMap.mem_toList_iff_getElem?_eq_some.mp he)
  simp [this]

end Keyed

namespace Replay

/-- **Writing every record once gives the same records again.** -/
theorem applyAll_writes {records : Dict Snapshot} (h : Keyed records) (time : Int64) :
    applyAll ∅ (records.values.map fun r => ⟨time, .write r⟩) = records := by
  have hf : applyAll ∅ (records.values.map fun r => ⟨time, .write r⟩) =
      (records.values.map fun r => (r.key, r)).foldl (fun d e => d.insert e.1 e.2) ∅ := by
    rw [applyAll, List.foldl_map, List.foldl_map]
    rfl
  rw [hf, ← Std.ExtTreeMap.ofList_eq_foldl, h.map_values, Dict.ofList_toList]

end Replay

end RecordStore
