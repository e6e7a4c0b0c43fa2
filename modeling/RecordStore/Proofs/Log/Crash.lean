import RecordStore.Proofs.Log.Durability

/-!
# A log that was cut off anywhere

When a log ends early, because not all of it was kept, opening it finds every entry whose frame is
there in full and no other, and cuts off the rest. What is written later stands behind these.

* `LogStore.change`, `changeAll`: writes and deletes, each at its moment.
* `LogStore.appended`: the entries that these put into the file. `succeeded`: those of them that did
  not fail.
* `made_changeAll`: the frames of a log after some changes. `succeeded_of_fits`: when there is room,
  none of them fails.
* `made_cut`: the frames of a log that was cut.
* `recover_cut`: **what is left of a log that is cut after any number of bytes, and what becomes of
  it.**
-/

namespace RecordStore.LogStore

open Framed (joined contents)
open Replay (applyAll)

/-- Makes a change. -/
def change (operation : Operation) (s : LogStore) : Outcome LogStore Unit :=
  match operation with
  | .write r => s.write r
  | .delete key => s.delete key

/-- The log after some changes. One that fails is a change, too. -/
def changeAll (changes : List (Moment × Operation)) (s : LogStore) : LogStore :=
  changes.foldl (fun s c => (change c.2 (s.during c.1)).state) s

/-- Whether a change is for the file: what is not there need not be removed. -/
def matters (operation : Operation) (s : LogStore) : Bool :=
  match operation with
  | .write _ => true
  | .delete key => key ∈ s.records

/-- The entry that a change puts into the file, if it does. -/
def added (m : Moment) (operation : Operation) (s : LogStore) : List Entry :=
  match (change operation (s.during m)).result with
  | .ok () => if matters operation s then [⟨m.disk.now, operation⟩] else []
  | .error _ => []

/-- The entries that some changes put into the file. -/
def appended : List (Moment × Operation) → LogStore → List Entry
  | [], _ => []
  | (m, operation) :: changes, s =>
    added m operation s ++ appended changes (change operation (s.during m)).state

/-- The changes that did not fail. -/
def succeeded : List (Moment × Operation) → LogStore → List Operation
  | [], _ => []
  | (m, operation) :: changes, s =>
    let o := change operation (s.during m)
    match o.result with
    | .ok () => operation :: succeeded changes o.state
    | .error _ => succeeded changes o.state

/-- That a change fits a frame, and that the file may become as long as it takes. -/
def Fits (m : Moment) (operation : Operation) : Prop :=
  m.disk.limit = none ∧ (Entry.encode ⟨m.disk.now, operation⟩).length ≤ Frame.maxPayload

/-- The bytes of some entries, each in its frame. -/
def written (es : List Entry) : List UInt8 := es.flatMap fun e => Frame.wrap e.encode

/-! ## Frames after changes -/

/-- A frame as it is written. -/
def AsWritten (f : Framed) : Prop := f.bytes = Frame.wrap f.entry.encode

theorem joined_eq_written {frames : List Framed} (h : ∀ f ∈ frames, AsWritten f) :
    joined frames = written (contents frames) := by
  induction frames with
  | nil => rfl
  | cons f frames ih =>
    have hf : f.bytes = Frame.wrap f.entry.encode := h f List.mem_cons_self
    rw [Framed.joined_cons, hf, ih fun g hg => h g (List.mem_cons_of_mem f hg)]
    rfl

variable {frames : List Framed} {s : LogStore}

/-- A change goes into the file, or the log is stuck, or it is none. -/
theorem change_cases (operation : Operation) (s : LogStore) :
    (s.matters operation = true ∧ s.change operation = s.record operation) ∨
    (s.stuck = true ∧ ∃ e, s.change operation = .fail e s) ∨
    (s.matters operation = false ∧ s.change operation = .ok () s) := by
  cases operation with
  | write r => exact .inl ⟨rfl, rfl⟩
  | delete key =>
    rcases delete_cases key s with ⟨hk, h⟩ | h | ⟨hk, h⟩
    · exact .inl ⟨decide_eq_true hk, h⟩
    · exact .inr (.inl h)
    · exact .inr (.inr ⟨decide_eq_false hk, h⟩)

theorem apply_of_not_matters {operation : Operation} (h : s.matters operation = false) :
    operation.apply s.records = s.records := by
  cases operation with
  | write r => cases h
  | delete key =>
    exact Dict.erase_of_not_mem (of_decide_eq_false h)

theorem made_change (h : Made frames s) (m : Moment) (operation : Operation) :
    ∃ more, Made (frames ++ more) (change operation (s.during m)).state ∧
      contents more = s.added m operation ∧ ∀ f ∈ more, AsWritten f := by
  have hd : Made frames (s.during m) := h.congr rfl rfl rfl rfl rfl
  have hn : Made (frames ++ []) (s.during m) := by rwa [List.append_nil]
  rcases change_cases operation (s.during m) with ⟨hm, hc⟩ | ⟨-, e, hc⟩ | ⟨hm, hc⟩
  · rcases made_record hd operation with ⟨hl, hr, -, hw⟩ | ⟨⟨e, he⟩, hw⟩
    · refine ⟨[.ofEntry _ hl], by rwa [hc], ?_, fun f hf => ?_⟩
      · rw [added, hc, hr]
        exact (if_pos hm).symm
      · rw [List.mem_singleton.mp hf]
        rfl
    · refine ⟨[], by rwa [hc, List.append_nil], ?_, fun f hf => nomatch hf⟩
      rw [added, hc, he]
      rfl
  · refine ⟨[], by rwa [hc], ?_, fun f hf => nomatch hf⟩
    rw [added, hc]
    rfl
  · refine ⟨[], by rwa [hc], ?_, fun f hf => nomatch hf⟩
    rw [added, hc]
    exact (if_neg (Bool.eq_false_iff.mp hm)).symm

/-- **Changes put the frames of what they append behind those that are there.** -/
theorem made_changeAll (h : Made frames s) (changes : List (Moment × Operation)) :
    ∃ more, Made (frames ++ more) (s.changeAll changes) ∧ contents more = s.appended changes ∧
      ∀ f ∈ more, AsWritten f := by
  induction changes generalizing frames s with
  | nil => exact ⟨[], by rwa [List.append_nil], rfl, fun f hf => nomatch hf⟩
  | cons c changes ih =>
    obtain ⟨one, hone, hc, hw⟩ := made_change h c.1 c.2
    obtain ⟨more, hmore, hcs, hws⟩ := ih hone
    refine ⟨one ++ more, by rwa [← List.append_assoc], ?_, fun f hf => ?_⟩
    · rw [Framed.contents_append, hc, hcs]
      rfl
    · exact (List.mem_append.mp hf).elim (hw f) (hws f)

/-- The records are what the changes that succeeded made of them. -/
theorem records_changeAll (changes : List (Moment × Operation)) (s : LogStore) :
    (s.changeAll changes).records = (s.succeeded changes).foldl Operation.apply s.records := by
  induction changes generalizing s with
  | nil => rfl
  | cons c changes ih =>
    have hstep : (s.changeAll (c :: changes)).records =
        ((change c.2 (s.during c.1)).state.changeAll changes).records := rfl
    rw [hstep, ih, succeeded]
    rcases change_cases c.2 (s.during c.1) with ⟨-, hc⟩ | ⟨-, e, hc⟩ | ⟨hm, hc⟩
    · rw [hc]
      cases hr : ((s.during c.1).record c.2).result with
      | ok u =>
        dsimp only
        rw [List.foldl_cons, records_record_of_ok hr]
        rfl
      | error e =>
        dsimp only
        rw [records_record_of_error hr]
        rfl
    · rw [hc]
      rfl
    · rw [hc]
      dsimp only [Outcome.ok]
      have ha : c.2.apply s.records = s.records := apply_of_not_matters hm
      rw [List.foldl_cons, ha]
      rfl

theorem keeps_change (operation : Operation) : Keeps (change operation) := by
  cases operation with
  | write r => exact keeps_record _
  | delete key => exact keeps_delete key

theorem result_change_of_fits {m : Moment} {operation : Operation} (hs : s.stuck = false)
    (hf : Fits m operation) : (change operation (s.during m)).result = .ok () := by
  rcases change_cases operation (s.during m) with ⟨-, hc⟩ | ⟨ht, -⟩ | ⟨-, hc⟩
  · rw [hc]
    have hl : (s.during m).disk.limit = none := hf.1
    have hroom : ∀ bytes, (s.during m).room bytes = bytes.length := fun bytes => by
      rw [room, hl]
    exact record_eq_ok rfl hs hf.2 (Nat.le_of_eq (hroom _).symm)
  · have ht : s.stuck = true := ht
    rw [hs] at ht
    cases ht
  · rw [hc]
    rfl

/-- **Changes that fit all succeed**, one after the other. -/
theorem succeeded_of_fits (h : Sound s) (hs : s.stuck = false)
    {changes : List (Moment × Operation)} (hf : ∀ c ∈ changes, Fits c.1 c.2) :
    s.succeeded changes = changes.map Prod.snd := by
  induction changes generalizing s with
  | nil => rfl
  | cons c changes ih =>
    have hr := result_change_of_fits hs (hf c List.mem_cons_self)
    obtain ⟨hk, hu⟩ := keeps_change c.2 (s.during c.1) (h.during c.1)
    rw [succeeded, hr, List.map_cons]
    exact congrArg (c.2 :: ·) (ih hk (hu hr) fun d hd => hf d (List.mem_cons_of_mem c hd))

/-! ## Cutting the file -/

/-- **A log that is cut is made of the frames that end before the cut.** -/
theorem made_cut (h : Made frames s) (n : Nat) :
    ∃ kept ≤ frames.length,
      (∀ i < frames.length, i < kept ↔ (joined (frames.take (i + 1))).length ≤ n) ∧
      Made (frames.take kept) (recover (s.file.extract 0 n)).1 ∧
      (recover (s.file.extract 0 n)).1.stuck = false := by
  obtain ⟨rest, hf, ht, -⟩ := h.file_eq
  obtain ⟨kept, hk, hi, tail, hr, hcut⟩ := Replay.exists_take frames ht n
  rw [← hf, ← toList_extract] at hcut
  exact ⟨kept, hk, hi, made_recover hcut hr⟩

/-- **What is left of a log that was cut.** The log is new at first, then changed in any way, cut
after its first `n` bytes, opened, changed in any way again, and opened again. -/
theorem recover_cut (changes later : List (Moment × Operation)) (n : Nat) :
    let es := (∅ : LogStore).appended changes
    let cut := (recover (((∅ : LogStore).changeAll changes).file.extract 0 n)).1
    let reopened := (cut.changeAll later).reopen.1
    ∃ kept ≤ es.length,
      (∀ i < es.length, i < kept ↔ (written (es.take (i + 1))).length ≤ n) ∧
      cut.records = applyAll ∅ (es.take kept) ∧ cut.entryCount = kept ∧
      cut.file.data.toList = written (es.take kept) ∧
      reopened.records = (cut.succeeded later).foldl Operation.apply cut.records ∧
      ((∀ c ∈ later, Fits c.1 c.2) → cut.succeeded later = later.map Prod.snd) ∧
      reopened.records = applyAll ∅ (es.take kept ++ cut.appended later) ∧
      reopened.entryCount = kept + (cut.appended later).length := by
  intro es cut reopened
  obtain ⟨frames, hm, hc, hw⟩ := made_changeAll made_empty changes
  rw [List.nil_append] at hm
  obtain ⟨kept, hk, hi, hcut, hs⟩ := made_cut hm n
  obtain ⟨more, hmore, hcs, -⟩ := made_changeAll hcut later
  obtain ⟨hr, -⟩ := made_reopen hmore
  -- The frames before the cut were all written by the log, so they can be told by their entries.
  have hlength : frames.length = es.length := by rw [← Framed.length_contents, hc]
  have htake : ∀ i, contents (frames.take i) = es.take i := fun i => by
    rw [Framed.contents, List.map_take, ← Framed.contents, hc]
  have hjoined : ∀ i, joined (frames.take i) = written (es.take i) := fun i => by
    rw [joined_eq_written fun f hf => hw f (List.mem_of_mem_take hf), htake]
  refine ⟨kept, hlength ▸ hk, fun i hlt => ?_, ?_, ?_, ?_, ?_, succeeded_of_fits ⟨_, hcut⟩ hs,
    ?_, ?_⟩
  · rw [← hjoined]
    exact hi i (hlength ▸ hlt)
  · rw [hcut.records_eq, htake]
  · rw [hcut.entryCount_eq, List.length_take_of_le hk]
  · rw [hcut.toList_file hs, hjoined]
  · rw [← records_changeAll, hr.records_eq, hmore.records_eq]
  · rw [hr.records_eq, Framed.contents_append, htake, hcs]
  · rw [hr.entryCount_eq, List.length_append, List.length_take_of_le hk, ← hcs,
      Framed.length_contents]

/-- A log that is cut inside its first frame holds nothing, and keeps what is written then. -/
theorem recover_cut_in_first :
    let change : Moment × Operation := ({}, .write default)
    let cut := (recover (((∅ : LogStore).changeAll [change]).file.extract 0 3)).1
    cut.records = ∅ ∧ (cut.changeAll [change]).reopen.1.records =
      (∅ : Dict Snapshot).insert (default : Snapshot).key default := by
  intro change cut
  have hf : ∀ c ∈ [change], Fits c.1 c.2 := fun c hc => by
    rw [List.mem_singleton.mp hc]
    exact ⟨rfl, by decide +kernel⟩
  have hl : ¬ (written (((∅ : LogStore).appended [change]).take 1)).length ≤ 3 := by
    decide +kernel
  have he : ((∅ : LogStore).appended [change]).length = 1 := by decide +kernel
  obtain ⟨kept, -, hi, hr, -, -, hlater, hs, -⟩ := recover_cut [change] [change] 3
  have hk : kept = 0 := Nat.eq_zero_of_not_pos fun h => hl ((hi 0 (he ▸ Nat.one_pos)).mp h)
  subst hk
  refine ⟨hr, ?_⟩
  rw [hlater, hs hf, hr]
  rfl

end RecordStore.LogStore
