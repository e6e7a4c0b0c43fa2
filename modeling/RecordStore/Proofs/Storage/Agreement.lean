import RecordStore.Proofs.Log.Maintenance
import RecordStore.Proofs.Storage.Mirror
import RecordStore.Proofs.Storage.Pages

/-!
# All storages that keep records are the same map

Memory, a log and tables that start empty give the same answers to the same steps, errors included.
It makes no difference when a log is compacted, or a log or tables are closed and opened again, in
between. But a log takes no record without a value or with too long an entry, and tables none with
too long a row.

* `StoreStep`, `StoreStep.perform`: what can be asked of a storage, and what it answers.
* `Storable`, `Regular`: records that a log takes. `StoreStep.Short`: what tables do not refuse.
* `Turn`: a step at a time, with what is done to the storage before. `answers` is a run of turns.
* `Follows`: that a storage holds what memory does and is ready for more. `follows_perform` is the
  step, `answers_eq` the run.
* `storages_agree`: **every storage answers as memory does.**
* `storages_differ`: what tables refuse is taken by the others.
-/

namespace RecordStore

/-! ## Steps -/

/-- What can be asked of a storage. -/
inductive StoreStep where
  | write (r : Snapshot)
  | delete (key : String)
  | read (key : String)
  | keys
  | load
  | compare (r : Snapshot)
  | flush
  deriving DecidableEq

/-- What a storage answers. -/
inductive StoreAnswer where
  | done
  | record (r : Snapshot)
  | keys (listed : List String)
  | records (rs : List Snapshot)
  | verdict (same : Bool)
  deriving DecidableEq

/-- Asks a storage. -/
def StoreStep.perform {σ : Type} [Storage σ] (step : StoreStep) (s : σ) : Outcome σ StoreAnswer :=
  match step with
  | write r => (Storage.write r s).map fun _ => .done
  | delete key => (Storage.delete key s).map fun _ => .done
  | read key => (Storage.read key s).map .record
  | keys => (Storage.keys s).map .keys
  | load => (Storage.load s).map .records
  | compare r => (Storage.compare r s).map .verdict
  | flush => (Storage.flush s).map fun _ => .done

theorem Embeds.perform_eq {σ τ : Type} [Storage σ] [Storage τ] {f : σ → τ} (h : Embeds f)
    (hl : ∀ s, Storage.load (f s) = (Storage.load s).within f) (step : StoreStep) (s : σ) :
    step.perform (f s) = (step.perform s).within f := by
  cases step with
  | write r => rw [StoreStep.perform, h.write_eq, Outcome.map_within, StoreStep.perform]
  | delete key => rw [StoreStep.perform, h.delete_eq, Outcome.map_within, StoreStep.perform]
  | read key => rw [StoreStep.perform, h.read_eq, Outcome.map_within, StoreStep.perform]
  | keys => rw [StoreStep.perform, h.keys_eq, Outcome.map_within, StoreStep.perform]
  | load => rw [StoreStep.perform, hl, Outcome.map_within, StoreStep.perform]
  | compare r => rw [StoreStep.perform, h.compare_eq, Outcome.map_within, StoreStep.perform]
  | flush => rw [StoreStep.perform, h.flush_eq, Outcome.map_within, StoreStep.perform]

/-- The answers of memory to some steps. -/
def MemoryStore.answers : List StoreStep → MemoryStore → List (Except StoreError StoreAnswer)
  | [], _ => []
  | step :: steps, s => (step.perform s).result :: answers steps (step.perform s).state

/-! ## What can be stored -/

/-- That a record has a value, and that its entry fits into a frame at some times. -/
structure Storable (times : List Int64) (r : Snapshot) : Prop where
  values_ne_nil : r.values ≠ []
  length_le : ∀ now ∈ times, (Entry.encode ⟨now, .write r⟩).length ≤ Frame.maxPayload

/-- That all records of a dictionary can be stored and stand under their own keys. -/
structure Regular (times : List Int64) (d : Dict Snapshot) : Prop where
  keyed : Keyed d
  storable : ∀ (key : String) (r : Snapshot), d[key]? = some r → Storable times r

/-- That nothing in a step is too long for a table: no row of a record that is written, and no key
that is asked for. -/
def StoreStep.Short : StoreStep → Prop
  | write r => r.RowsFit
  | delete key => key.utf8ByteSize ≤ Pages.maxLength
  | read key => key.utf8ByteSize ≤ Pages.maxLength
  | keys => True
  | load => True
  | compare r => r.key.utf8ByteSize ≤ Pages.maxLength
  | flush => True

instance : DecidablePred StoreStep.Short
  | .write r => inferInstanceAs (Decidable r.RowsFit)
  | .delete _ => Nat.decLe _ _
  | .read _ => Nat.decLe _ _
  | .keys => .isTrue trivial
  | .load => .isTrue trivial
  | .compare _ => Nat.decLe _ _
  | .flush => .isTrue trivial

variable {times : List Int64} {d : Dict Snapshot}

namespace Regular

theorem empty : Regular times ∅ := by
  refine ⟨.empty, fun key r h => ?_⟩
  simp at h

theorem of_mem (h : Regular times d) {r : Snapshot} (hr : r ∈ d.values) : Storable times r :=
  h.storable r.key r (h.keyed.mem_values_iff.mp hr)

theorem values_ne_nil (h : Regular times d) : ∀ r ∈ d.values, r.values ≠ [] :=
  fun _ hr => (h.of_mem hr).values_ne_nil

theorem insert (h : Regular times d) {r : Snapshot} (hr : Storable times r) :
    Regular times (d.insert r.key r) := by
  refine ⟨h.keyed.apply (.write r), fun key r' hr' => ?_⟩
  rw [Std.ExtTreeMap.getElem?_insert] at hr'
  split at hr'
  · cases hr'
    exact hr
  · exact h.storable key r' hr'

theorem erase (h : Regular times d) (key : String) : Regular times (d.erase key) := by
  refine ⟨h.keyed.apply (.delete key), fun k r hr => ?_⟩
  rw [Std.ExtTreeMap.getElem?_erase] at hr
  split at hr
  · cases hr
  · exact h.storable k r hr

end Regular

/-- What memory holds can be stored in a log when what is written to it can. -/
theorem regular_perform (h : Regular times d) {step : StoreStep}
    (hs : ∀ r, step = .write r → Storable times r) :
    Regular times (step.perform (⟨d⟩ : MemoryStore)).state.records := by
  cases step with
  | write r => exact h.insert (hs r rfl)
  | delete key => exact h.erase key
  | _ => exact h

/-! ## Logs -/

namespace LogStore

variable {s : LogStore}

/-- The conditions that a log answers under: it is made of frames, and nothing hinders it. -/
structure Ready (s : LogStore) : Prop where
  sound : s.Sound
  stuck_eq : s.stuck = false
  limit_eq : s.disk.limit = none
  syncs_eq : s.medium.syncs = true

theorem Ready.record_eq_ok (h : Ready s) {operation : Operation}
    (hl : (Entry.encode ⟨s.disk.now, operation⟩).length ≤ Frame.maxPayload) :
    (s.record operation).result = .ok () := by
  have hroom : ∀ bytes, s.room bytes = bytes.length := fun bytes => by rw [room, h.limit_eq]
  exact LogStore.record_eq_ok rfl h.stuck_eq hl (Nat.le_of_eq (hroom _).symm)

theorem Ready.write_eq_ok (h : Ready s) {r : Snapshot} (hr : Storable times r)
    (hnow : s.disk.now ∈ times) : (s.write r).result = .ok () :=
  h.record_eq_ok (hr.length_le _ hnow)

theorem Ready.delete_eq_ok (h : Ready s) (hd : Regular times s.records)
    (hnow : s.disk.now ∈ times) (key : String) : (s.delete key).result = .ok () := by
  rcases delete_cases key s with ⟨hk, hdel⟩ | ⟨hs, -⟩ | ⟨-, hdel⟩
  · rw [hdel]
    have hr := Std.ExtTreeMap.getElem?_eq_some_getElem hk
    have hkey : s.records[key].key = key := hd.keyed key _ hr
    have hlong := (hd.storable key _ hr).length_le _ hnow
    have hle := Entry.length_delete_le_write s.disk.now s.records[key]
    rw [hkey] at hle
    exact h.record_eq_ok (Nat.le_trans hle hlong)
  · rw [h.stuck_eq] at hs
    cases hs
  · rw [hdel]
    rfl

/-- Every record finds room in a compacted log. -/
theorem Ready.rewrite_eq_ok (h : Ready s) (hd : Regular times s.records)
    (hnow : s.disk.now ∈ times) : s.rewrite.result = .ok () :=
  (rewrite_eq_ok_iff h.limit_eq h.syncs_eq).mpr fun _ hr => (hd.of_mem hr).length_le _ hnow

theorem Ready.flush_eq_ok (h : Ready s) (hd : Regular times s.records)
    (hnow : s.disk.now ∈ times) : s.flush.result = .ok () := by
  have hcompact : s.compact = s.rewrite := whenUsable_of_not_stuck _ h.stuck_eq
  have hflush : s.flush = if s.wantsCompaction then s.rewrite else .ok () s := by
    rw [flush, whenUsable_of_not_stuck _ h.stuck_eq, if_neg (by simp [h.syncs_eq]), hcompact]
  rw [hflush]
  split
  · exact h.rewrite_eq_ok hd hnow
  · rfl

/-- **A log answers as memory with its records does**, and they stay the same. -/
theorem perform_eq (h : Ready s) (hd : Regular times s.records) (hnow : s.disk.now ∈ times)
    {step : StoreStep} (hs : ∀ r, step = .write r → Storable times r) :
    (step.perform s).result = (step.perform (⟨s.records⟩ : MemoryStore)).result ∧
      (step.perform s).state.records =
        (step.perform (⟨s.records⟩ : MemoryStore)).state.records ∧
      (step.perform s).state.Sound ∧ (step.perform s).state.stuck = false := by
  cases step with
  | write r =>
    have hok := h.write_eq_ok (hs r rfl) hnow
    obtain ⟨hsound, hstuck⟩ := keeps_record (.write r) s h.sound
    have hstep : (StoreStep.write r).perform s = (s.write r).map fun _ => .done := rfl
    rw [hstep, Outcome.result_map_of_ok hok, Outcome.state_map]
    exact ⟨rfl, records_record_of_ok hok, hsound, hstuck hok⟩
  | delete key =>
    have hok := h.delete_eq_ok hd hnow key
    obtain ⟨hsound, hstuck⟩ := keeps_delete key s h.sound
    refine ⟨Outcome.result_map_of_ok hok, ?_, hsound, hstuck hok⟩
    refine Std.ExtTreeMap.ext_getElem? fun k => ?_
    exact congrFun ((held_delete_of_ok hok).trans (Dict.getElem?_erase_eq s.records key).symm) k
  | read key => exact ⟨rfl, rfl, h.sound, h.stuck_eq⟩
  | keys => exact ⟨rfl, rfl, h.sound, h.stuck_eq⟩
  | load => exact ⟨rfl, rfl, h.sound, h.stuck_eq⟩
  | compare r => exact ⟨rfl, rfl, h.sound, h.stuck_eq⟩
  | flush =>
    have hok := h.flush_eq_ok hd hnow
    obtain ⟨hsound, hstuck⟩ := keeps_flush s h.sound
    exact ⟨Outcome.result_map_of_ok hok, s.records_flush, hsound, hstuck hok⟩

end LogStore

/-! ## Tables -/

namespace TableStore

variable {s : TableStore}

theorem changed_eq_ok {pages : Except Nat PageFile} (h : ∃ file, pages = .ok file)
    (t : TableStore) : (s.changed pages t).result = .ok () := by
  obtain ⟨file, rfl⟩ := h
  rfl

theorem write_eq_ok (hl : s.limit = none) (ho : s.owed = 0) {r : Snapshot} (hv : r.values ≠ [])
    (hf : r.RowsFit) : (s.write r).result = .ok () := by
  have hc : r.current? = some (r.values.getLast hv) := List.getLast?_eq_some_getLast hv
  simp only [write, hc]
  rw [dif_pos ⟨hf.key_le hc, hf.value_le hc⟩, whenSettled_of_owed _ ho, hl]
  exact changed_eq_ok (s.pages.exists_change_write hf hc) _

theorem delete_eq_ok (hl : s.limit = none) (ho : s.owed = 0) {key : String}
    (hk : key.utf8ByteSize ≤ Pages.maxLength) : (s.delete key).result = .ok () := by
  rw [delete, whenShort_of_owed _ ho hk, hl]
  exact changed_eq_ok (s.pages.exists_change_delete key) _

/-- A value that is too long is refused, whatever the tables are. -/
theorem write_eq_error_of_value {r : Snapshot} {value : Bytes} (hc : r.current? = some value)
    (hl : Pages.maxLength < value.length) :
    s.write r = .fail (.backend .database) s := by
  simp only [write, hc]
  exact dif_neg fun h => absurd h.2 (Nat.not_le.mpr hl)

/-- **Tables answer as memory with their records does**, and these stay the same. -/
theorem perform_eq (hl : s.limit = none) (ho : s.owed = 0)
    (hr : s.rows = fun key => d[key]?.map rowsOf) (hd : Regular times d) {step : StoreStep}
    (hs : ∀ r, step = .write r → Storable times r) (hf : step.Short) :
    (step.perform s).result = (step.perform (⟨d⟩ : MemoryStore)).result ∧
      (step.perform s).state.rows = (fun key =>
        (step.perform (⟨d⟩ : MemoryStore)).state.records[key]?.map rowsOf) ∧
      (step.perform s).state.owed = 0 := by
  have hread : ∀ key, key.utf8ByteSize ≤ Pages.maxLength →
      Storage.read key s = ⟨MemoryStore.read key ⟨d⟩, s, []⟩ := by
    intro key hk
    rw [← read_of_rows hr hd.keyed hd.values_ne_nil]
    exact whenShort_of_owed _ ho hk
  cases step with
  | write r =>
    have hok := write_eq_ok hl ho (hs r rfl).values_ne_nil hf
    have hwhole := allOrNothing_write r s
    refine ⟨Outcome.result_map_of_ok hok, (hwhole.rows_of_ok hok).trans ?_, hwhole.owed_of_ok hok⟩
    rw [hr]
    show Function.update (Option.map rowsOf ∘ (d[·]?)) r.key (Option.map rowsOf (some r)) =
      Option.map rowsOf ∘ fun key => (d.insert r.key r)[key]?
    rw [Dict.getElem?_insert_eq, Function.comp_update]
  | delete key =>
    have hok := delete_eq_ok hl ho hf
    have hwhole := allOrNothing_delete key s
    refine ⟨Outcome.result_map_of_ok hok, (hwhole.rows_of_ok hok).trans ?_, hwhole.owed_of_ok hok⟩
    rw [hr]
    show Function.update (Option.map rowsOf ∘ (d[·]?)) key (Option.map rowsOf none) =
      Option.map rowsOf ∘ fun k => (d.erase key)[k]?
    rw [Dict.getElem?_erase_eq, Function.comp_update]
  | read key =>
    rw [StoreStep.perform, hread key hf]
    exact ⟨rfl, hr, ho⟩
  | keys =>
    have hkeys : Storage.keys s = .ok s.records.keys s := whenSettled_of_owed _ ho
    rw [StoreStep.perform, hkeys, keys_of_rows hr]
    exact ⟨rfl, hr, ho⟩
  | load =>
    have hload : Storage.load s = ⟨s.load, s, []⟩ := whenSettled_of_owed _ ho
    rw [StoreStep.perform, hload, load_of_rows hr hd.keyed hd.values_ne_nil]
    exact ⟨rfl, hr, ho⟩
  | compare r =>
    have hcompare : Storage.compare r s =
        ⟨compareWith r (Storage.read r.key s).result, (Storage.read r.key s).state,
          (Storage.read r.key s).events⟩ := rfl
    rw [StoreStep.perform, hcompare, hread r.key hf]
    exact ⟨rfl, hr, ho⟩
  | flush => exact ⟨rfl, hr, ho⟩

end TableStore

/-! ## Turns -/

/-- What may be done to a storage between two steps. -/
inductive Upkeep where
  /-- A log is compacted. -/
  | compact
  /-- What is kept in a file is closed and opened again. -/
  | reopen

/-- A step at a time, and what is done to the storage before it, each at its time. -/
structure Turn where
  upkeep : List (Int64 × Upkeep) := []
  now : Int64 := 0
  step : StoreStep

namespace Backing

/-- The storage at a time, with nothing to hinder it. -/
def clocked (now : Int64) (s : Backing) : Backing := s.during { disk := { now } }

/-- Does what may be done between two steps, where it can be done. -/
def tend (work : Upkeep) (s : Backing) : Backing :=
  match work, s with
  | .compact, log s => log s.compact.state
  | .reopen, log s => log s.reopen.1
  | .reopen, tables s => tables s.reopen
  | _, s => s

/-- Takes a turn. -/
def take (turn : Turn) (s : Backing) : Outcome Backing StoreAnswer :=
  let s := turn.upkeep.foldl (fun s work => tend work.2 (s.clocked work.1)) s
  turn.step.perform (s.clocked turn.now)

/-- The answers in some turns. -/
def answers : List Turn → Backing → List (Except StoreError StoreAnswer)
  | [], _ => []
  | turn :: turns, s => (s.take turn).result :: answers turns (s.take turn).state

/-- That a storage goes on doing what it is asked: a log has not been given up. -/
def Usable : Backing → Prop
  | log s => s.stuck = false
  | _ => True

/-- **The invariant**: a storage of some kind holds what memory does, and is ready for more. -/
structure Follows (k : Kind) (d : Dict Snapshot) (s : Backing) : Prop where
  kind_eq : s.kind = k
  mirrors : s.Mirrors d
  inOrder : s.InOrder
  usable : s.Usable

variable {s : Backing} {k : Kind}

theorem Follows.clocked (h : s.Follows k d) (now : Int64) : (s.clocked now).Follows k d := by
  refine ⟨(kind_during _ s).trans h.kind_eq, h.mirrors.during _, h.inOrder.during _, ?_⟩
  cases s <;> exact h.usable

theorem Follows.tend (h : s.Follows k d) (work : Upkeep) : (s.tend work).Follows k d := by
  cases s with
  | log s =>
    cases work with
    | compact =>
      have hmirrors : s.compact.state.records = d := (LogStore.records_compact s).trans h.mirrors
      exact ⟨h.kind_eq, hmirrors, (LogStore.keeps_compact s h.inOrder).1,
        (LogStore.stuck_compact s).trans h.usable⟩
    | reopen =>
      obtain ⟨hsound, hstuck⟩ := LogStore.keeps_reopen s h.inOrder
      exact ⟨h.kind_eq, h.mirrors.reopen h.inOrder rfl, hsound, hstuck rfl⟩
  | tables s =>
    cases work with
    | compact => exact h
    | reopen => exact ⟨h.kind_eq, h.mirrors.reopen h.inOrder rfl, trivial, trivial⟩
  | memory s => cases work <;> exact h
  | discard s => cases h.mirrors

theorem Follows.tendAll (h : s.Follows k d) (works : List (Int64 × Upkeep)) :
    (works.foldl (fun s work => Backing.tend work.2 (s.clocked work.1)) s).Follows k d := by
  induction works generalizing s with
  | nil => exact h
  | cons work works ih => exact ih ((h.clocked work.1).tend work.2)

/-- **A storage answers as memory does**, and goes on to hold what memory holds. Only tables refuse
what is too long for a row. -/
theorem follows_perform (h : s.Follows k d) (hd : Regular times d) {now : Int64}
    (hnow : now ∈ times) {step : StoreStep} (hs : ∀ r, step = .write r → Storable times r)
    (hf : k = .tables → step.Short) :
    (step.perform (s.clocked now)).result = (step.perform (⟨d⟩ : MemoryStore)).result ∧
      (step.perform (s.clocked now)).state.Follows k
        (step.perform (⟨d⟩ : MemoryStore)).state.records := by
  cases s with
  | log s =>
    obtain ⟨-, hmirrors, hsound, hstuck⟩ := h.clocked now
    obtain rfl : s.records = d := hmirrors
    obtain ⟨hr, hmirrors', hsound', hstuck'⟩ :=
      LogStore.perform_eq ⟨hsound, hstuck, rfl, rfl⟩ hd hnow hs
    rw [clocked, during, embeds_log.perform_eq fun _ => rfl]
    exact ⟨hr, h.kind_eq, hmirrors', hsound', hstuck'⟩
  | tables s =>
    obtain ⟨hrows, howed⟩ := (h.clocked now).mirrors
    obtain ⟨hr, hmirrors'⟩ := TableStore.perform_eq rfl howed hrows hd hs (hf h.kind_eq.symm)
    rw [clocked, during, embeds_tables.perform_eq fun _ => rfl]
    exact ⟨hr, h.kind_eq, hmirrors', trivial, trivial⟩
  | memory s =>
    obtain rfl : s.records = d := h.mirrors
    rw [clocked, during, embeds_memory.perform_eq fun _ => rfl]
    exact ⟨rfl, h.kind_eq, rfl, (regular_perform hd hs).keyed, trivial⟩
  | discard s => cases h.mirrors

/-- **So do the answers of a whole run.** -/
theorem answers_eq (h : s.Follows k d) (hd : Regular times d) {turns : List Turn}
    (hnow : ∀ turn ∈ turns, turn.now ∈ times)
    (hs : ∀ turn ∈ turns, ∀ r, turn.step = .write r → Storable times r)
    (hf : ∀ turn ∈ turns, k = .tables → turn.step.Short) :
    s.answers turns = MemoryStore.answers (turns.map Turn.step) ⟨d⟩ := by
  induction turns generalizing s d with
  | nil => rfl
  | cons turn turns ih =>
    obtain ⟨hn, hnow⟩ := List.forall_mem_cons.mp hnow
    obtain ⟨hw, hs⟩ := List.forall_mem_cons.mp hs
    obtain ⟨hshort, hf⟩ := List.forall_mem_cons.mp hf
    obtain ⟨hresult, hfollows⟩ := follows_perform (h.tendAll turn.upkeep) hd hn hw hshort
    rw [answers, List.map_cons, MemoryStore.answers, take, hresult]
    exact congrArg _ (ih hfollows (regular_perform hd hw) hnow hs hf)

end Backing

/-- **Storages that keep records are the same map.** A log and tables that start empty answer any
steps as memory does, at any times and whatever is done to them between the steps, when every record
that is written has a value and is not too long for the log. Tables do so if nothing is too long for
them either. -/
theorem storages_agree (turns : List Turn)
    (hs : ∀ turn ∈ turns, ∀ r, turn.step = .write r →
      r.values ≠ [] ∧ ∀ other ∈ turns,
        (Entry.encode ⟨other.now, .write r⟩).length ≤ Frame.maxPayload) :
    (Backing.log ∅).answers turns = MemoryStore.answers (turns.map Turn.step) ∅ ∧
    (Backing.memory ∅).answers turns = MemoryStore.answers (turns.map Turn.step) ∅ ∧
    ((∀ turn ∈ turns, turn.step.Short) →
      (Backing.tables ∅).answers turns = MemoryStore.answers (turns.map Turn.step) ∅) := by
  have hnow : ∀ turn ∈ turns, turn.now ∈ turns.map Turn.now :=
    fun turn h => List.mem_map_of_mem h
  have hs' : ∀ turn ∈ turns, ∀ r, turn.step = .write r → Storable (turns.map Turn.now) r := by
    intro turn ht r hr
    obtain ⟨hv, hl⟩ := hs turn ht r hr
    refine ⟨hv, fun now hn => ?_⟩
    obtain ⟨other, ho, rfl⟩ := List.mem_map.mp hn
    exact hl other ho
  have hlog : (Backing.log ∅).Follows .log ∅ := ⟨rfl, rfl, ⟨[], LogStore.made_empty⟩, rfl⟩
  have hmemory : (Backing.memory ∅).Follows .memory ∅ := ⟨rfl, rfl, .empty, trivial⟩
  have htables : (Backing.tables ∅).Follows .tables ∅ := by
    refine ⟨rfl, ⟨funext fun key => ?_, rfl⟩, trivial, trivial⟩
    have hnone : (∅ : TableStore).records[key]? = none := Std.ExtTreeMap.getElem?_empty
    rw [TableStore.rows, hnone]
    simp
  refine ⟨Backing.answers_eq hlog .empty hnow hs' fun _ _ h => ?_,
    Backing.answers_eq hmemory .empty hnow hs' fun _ _ h => ?_, fun hf =>
    Backing.answers_eq htables .empty hnow hs' fun turn ht _ => hf turn ht⟩
  · cases h
  · cases h

/-- A record with the empty key. -/
def trialRecord (values : List Bytes) (metadata : Dict String) : Snapshot :=
  ⟨default, "", values, metadata⟩

/-- A record is written, replaced by one with less to it, removed and written again, while the log
is compacted and all is closed and opened. -/
def trialTurns : List Turn :=
  [{ step := .read "" }, { step := .write (trialRecord [[1], [2]] {("b", "c")}) },
    { step := .write (trialRecord [[3]] ∅), upkeep := [(1, .compact)] }, { step := .read "" },
    { step := .delete "", upkeep := [(2, .reopen)] }, { step := .delete "" }, { step := .load },
    { step := .write (trialRecord [[4]] ∅), upkeep := [(3, .reopen), (3, .compact)] },
    { step := .keys, upkeep := [(4, .reopen)] }, { step := .flush },
    { step := .compare (trialRecord [[5], [4]] ∅) }]

/-- No storage finds what was replaced or removed. -/
theorem storages_agree_trial :
    (Backing.log ∅).answers trialTurns =
        [.error (.keyNotFound ""), .ok .done, .ok .done, .ok (.record (trialRecord [[3]] ∅)),
          .ok .done, .ok .done, .ok (.records []), .ok .done, .ok (.keys [""]), .ok .done,
          .ok (.verdict true)] ∧
      (Backing.tables ∅).answers trialTurns = (Backing.log ∅).answers trialTurns := by
  have hmemory : MemoryStore.answers (trialTurns.map Turn.step) ∅ =
      [.error (.keyNotFound ""), .ok .done, .ok .done, .ok (.record (trialRecord [[3]] ∅)),
        .ok .done, .ok .done, .ok (.records []), .ok .done, .ok (.keys [""]), .ok .done,
        .ok (.verdict true)] := by decide +kernel
  have hnow : ∀ turn ∈ trialTurns, turn.now = 0 := by decide +kernel
  have hwrites : ∀ turn ∈ trialTurns, ∀ r, turn.step = .write r → r.values ≠ [] ∧
      ∀ other ∈ trialTurns, (Entry.encode ⟨other.now, .write r⟩).length ≤ Frame.maxPayload := by
    intro turn ht r hr
    have hfits : r.values ≠ [] ∧ (Entry.encode ⟨0, .write r⟩).length ≤ Frame.maxPayload := by
      simp only [trialTurns, List.mem_cons, List.not_mem_nil, or_false] at ht
      rcases ht with rfl | rfl | rfl | rfl | rfl | rfl | rfl | rfl | rfl | rfl | rfl <;> cases hr <;>
        decide +kernel
    exact ⟨hfits.1, fun other ho => hnow other ho ▸ hfits.2⟩
  have hshort : ∀ turn ∈ trialTurns, turn.step.Short := by decide +kernel
  obtain ⟨hlog, -, htables⟩ := storages_agree trialTurns hwrites
  exact ⟨hlog.trans hmemory, (htables hshort).trans hlog.symm⟩

/-- A record with the longest value and one byte more fits into a log. -/
theorem length_encode_long {value : Bytes} (h : value.length = 1000000001) :
    (Entry.encode ⟨0, .write (trialRecord [value] ∅)⟩).length ≤ Frame.maxPayload := by
  have hshort : (Entry.encode ⟨0, .write (trialRecord [[]] ∅)⟩).length ≤ 200 := by decide +kernel
  have hmost : Frame.maxPayload = 4294967295 := rfl
  have hentry : (Entry.encode ⟨0, .write (trialRecord [value] ∅)⟩).length =
      (Entry.encode ⟨0, .write (trialRecord [[]] ∅)⟩).length + 4 * ((value.length + 2) / 3) :=
    Entry.length_encode_value 0 default "" value ∅
  omega

/-- A log takes it, and tables do not. -/
theorem answers_long {value : Bytes} (h : value.length = 1000000001) :
    (Backing.log ∅).answers [{ step := .write (trialRecord [value] ∅) }] = [.ok .done] ∧
    (Backing.tables ∅).answers [{ step := .write (trialRecord [value] ∅) }] =
      [.error (.backend .database)] := by
  constructor
  · have hready : LogStore.Ready ∅ := ⟨⟨[], LogStore.made_empty⟩, rfl, rfl, rfl⟩
    have hok : (LogStore.write (trialRecord [value] ∅) ∅).result = .ok () :=
      hready.record_eq_ok (length_encode_long h)
    exact congrArg (fun result => [result.map fun _ => StoreAnswer.done]) hok
  · have hlong : Pages.maxLength < value.length := by
      rw [h, Pages.maxLength]
      omega
    have herror : TableStore.write (trialRecord [value] ∅) ∅ = .fail (.backend .database) ∅ :=
      TableStore.write_eq_error_of_value rfl hlong
    exact congrArg (fun o : Outcome TableStore Unit => [o.result.map fun _ => StoreAnswer.done])
      herror

/-- A value that is too long for a row. -/
def longValue : Bytes := List.replicate 1000000001 0

/-- **Only tables refuse what is too long for a row**, and only what is kept in a file needs room. A
value of more than a thousand million bytes goes into memory and into a log, but not into tables;
nor does any record if the file of the tables may not grow. -/
theorem storages_differ :
    (trialRecord [longValue] ∅).values ≠ [] ∧
    (Entry.encode ⟨0, .write (trialRecord [longValue] ∅)⟩).length ≤ Frame.maxPayload ∧
    MemoryStore.answers [.write (trialRecord [longValue] ∅)] ∅ = [.ok .done] ∧
    (Backing.log ∅).answers [{ step := .write (trialRecord [longValue] ∅) }] = [.ok .done] ∧
    (Backing.tables ∅).answers [{ step := .write (trialRecord [longValue] ∅) }] =
      [.error (.backend .database)] ∧
    ((StoreStep.write (trialRecord [[1]] ∅)).perform (Backing.memory ∅)).result = .ok .done ∧
    ((StoreStep.write (trialRecord [[1]] ∅)).perform
      ((Backing.tables ∅).during { disk := { limit := some 4096 } })).result =
        .error (.backend .database) := by
  have hlength : longValue.length = 1000000001 := List.length_replicate
  obtain ⟨hlog, htables⟩ := answers_long hlength
  exact ⟨List.cons_ne_nil _ _, length_encode_long hlength, rfl, hlog, htables, rfl,
    by decide +kernel⟩

end RecordStore
