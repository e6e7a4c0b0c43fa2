import RecordStore.Proofs.Container.Views
import RecordStore.Proofs.Log.Recovery
import RecordStore.Proofs.Server.Lifecycle
import RecordStore.Proofs.Server.Versions

/-!
# Starting is all or nothing

When a server starts for the first time it takes over what is stored, if every record of it has a
key and values. Then it holds just these records and answers with them. If one record has none, it
has failed for good: what was loaded until then is never shown and never written back.

* `start_eq_ok_iff`: **when a server starts.** `start_eq_error`: why it does not.
* `ServesJust`: that a server answers with some records and no others. `servesJust_start`: **what it
  starts with.**
* `Halted`: that a server over a log has failed for good. `Halted.run`: **so it stays, and so does
  the file.**
* `start_recovered`: **what becomes of a log of any bytes.**
-/

namespace RecordStore

namespace Server

/-- **That a server answers with some records and no others.** -/
structure ServesJust (s : Server Backing) (records : Snapshot → Prop) : Prop where
  running : s.state = .running
  /-- It holds the records, with their ids. -/
  holds : ∀ x, x ∈ s.container.snapshots ↔ records x
  /-- It has all their values, -/
  serves : ∀ x, records x → Serves s x.key x.values
  /-- and all their metadata. -/
  lists : ∀ x, records x →
    (s.handle (.listMetadata x.key)).result = .ok (.metadata x.metadata)
  /-- It finds their keys, -/
  finds : ∃ keys, (s.handle (.find "")).result = .ok (.keys keys) ∧
    ∀ key, key ∈ keys ↔ ∃ x, records x ∧ x.key = key
  /-- and no other key is known. -/
  misses : ∀ key, key ≠ "" → (∀ x, records x → x.key ≠ key) → ∀ version,
    (s.handle (.get key version)).result = .error (.keyNotFound key)

variable {s : Server Backing}

/-- A running server answers with the records that it holds. -/
theorem Orderly.servesJust (hs : s.Orderly) (hrun : s.state = .running) :
    s.ServesJust (· ∈ s.container.snapshots) := by
  refine ⟨hrun, fun x => Iff.rfl, fun x hx => ?_, fun x hx => ?_, ?_, fun key hne hk version => ?_⟩
  · obtain ⟨r, hr, rfl⟩ := (Container.mem_snapshots_iff hs.coherent).mp hx
    exact serves_of_get? hs hrun hr
  · obtain ⟨r, hr, rfl⟩ := (Container.mem_snapshots_iff hs.coherent).mp hx
    rw [(handle_of_running hrun _).1, Container.answer,
      Container.require_of_get? (hs.coherent.ne_empty hr) hr]
    rfl
  · refine ⟨_, (handle_of_running hrun _).1, fun key => ?_⟩
    have hfind : s.container.find "" = s.container.keys := List.filter_true _
    rw [hfind, s.container.mem_keys_iff, ← Container.exists_mem_snapshots_iff hs.coherent]
  · have hnone : s.container.get? key = none := by
      by_contra hsome
      obtain ⟨x, hx, hkey⟩ := (Container.exists_mem_snapshots_iff hs.coherent).mpr
        (Option.ne_none_iff_exists'.mp hsome)
      exact hk x hx hkey
    rw [(handle_of_running hrun _).1, Container.answer, Container.require_of_get?_none hne hnone]
    rfl

/-! ## A first start -/

section Start

variable {stored : List Snapshot} (hs : s.Orderly) (hu : s.state = .unknown)
  (hretains : Storage.retains s.storage = true)
  (hload : (Storage.load s.storage).result = .ok stored)
include hretains hload

theorem result_load : s.load.result = ((∅ : Container).load stored).1.map fun _ => () := by
  rw [load, if_pos hretains]
  simp only [hload]

include hu

theorem result_start : s.start.result = ((∅ : Container).load stored).1.map fun _ => () := by
  rw [← result_load hretains hload]
  rcases start_cases (.inl hu) with ⟨hl, hok, -⟩ | ⟨e, hl, herror, -⟩
  · rw [hok, hl]
  · rw [herror, hl]

/-- **A server starts when every record that is stored has a key and values.** -/
theorem start_eq_ok_iff :
    s.start.result = .ok () ↔ ∀ r ∈ stored, r.key ≠ "" ∧ r.values ≠ [] := by
  rw [result_start hu hretains hload]
  constructor
  · intro hok r hr
    cases hc : ((∅ : Container).load stored).1 with
    | error e =>
      rw [hc] at hok
      cases hok
    | ok n => exact Record.exists_ofSnapshot_iff.mp (Container.exists_of_load_eq_ok hc r hr)
  · intro h
    rw [Container.load_eq_ok fun r hr => Record.exists_ofSnapshot_iff.mpr (h r hr)]
    rfl

/-- **Why a server does not start**: a record has no key, or one has no values. -/
theorem start_eq_error {e : StoreError} (h : s.start.result = .error e) :
    (e = .emptyKey ∧ ∃ r ∈ stored, r.key = "") ∨
      ∃ r ∈ stored, r.key ≠ "" ∧ r.values = [] ∧ e = .corruption (.noValues r.key) := by
  rw [result_start hu hretains hload, map_eq_error_iff] at h
  obtain ⟨r, hr, hs⟩ := Container.exists_of_load_eq_error h
  rcases Record.ofSnapshot_eq_error hs with ⟨hk, rfl⟩ | ⟨hk, hv, rfl⟩
  · exact .inl ⟨rfl, r, hr, hk⟩
  · exact .inr ⟨r, hr, hk, hv, rfl⟩

omit hu
include hs

/-- **A server that has started holds what was stored.** -/
theorem mem_snapshots_start_iff (hok : s.start.result = .ok ()) {x : Snapshot} :
    x ∈ s.start.state.container.snapshots ↔ ∃ r ∈ stored, x = r.normalized := by
  rw [Container.mem_snapshots_iff hs.start.coherent]
  constructor
  · rintro ⟨r', hr', rfl⟩
    obtain ⟨n, hc, hcontainer, -⟩ := exists_count_of_start hok hretains hload
    rw [hcontainer] at hr'
    obtain ⟨r, hr, -, hr'⟩ :=
      Container.exists_of_get?_load (hs.inOrder.nodup_load hload) hc hr'
    exact ⟨r, hr, Record.snapshot_eq_normalized hr'⟩
  · rintro ⟨r, hr, rfl⟩
    obtain ⟨r', hr', hget, -⟩ := get?_start_of_load hs hok hretains hload hr
    exact ⟨r', hget, Record.snapshot_eq_normalized hr'⟩

/-- **A server that has started answers with what was stored.** -/
theorem servesJust_start (hok : s.start.result = .ok ()) :
    s.start.state.ServesJust fun x => ∃ r ∈ stored, x = r.normalized := by
  obtain ⟨-, -, -, hrun⟩ := exists_count_of_start hok hretains hload
  have hjust := hs.start.servesJust hrun
  have hholds : (· ∈ s.start.state.container.snapshots) =
      fun x => ∃ r ∈ stored, x = r.normalized :=
    funext fun x => propext (mem_snapshots_start_iff hs hretains hload hok)
  rwa [hholds] at hjust

end Start

/-! ## A log of any bytes -/

/-- **That a server over a log has failed for good**, and what is in the file of the log. -/
structure Halted (s : Server Backing) (file : ByteArray) : Prop where
  state_eq : s.state = .error
  /-- No pass comes due. -/
  uptime_eq : s.uptime = none
  file_eq : ∃ l, s.storage = .log l ∧ l.file = file

namespace Halted

variable {file : ByteArray}

theorem during (h : s.Halted file) (m : Moment) : (s.during m).Halted file := by
  obtain ⟨l, hl, hf⟩ := h.file_eq
  refine ⟨h.state_eq, h.uptime_eq, l.during m, ?_, hf⟩
  rw [Server.during, hl]
  rfl

/-- It refuses every call and stays as it is. -/
theorem call_eq (h : s.Halted file) (c : ServerCall) :
    s.call c = .fail (c.refusal .error) s := by
  rw [call_of_not_mem (h.state_eq ▸ c.error_not_mem_sources), h.state_eq]

/-- **No step changes anything.** -/
theorem perform_eq (h : s.Halted file) (step : ServerStep) : s.perform step = s := by
  have hcall : ∀ c, (s.call c).state = s := fun c => by
    rw [h.call_eq c]
    rfl
  cases step with
  | start => exact hcall .start
  | stop => exact hcall .stop
  | syncNow => exact hcall .syncNow
  | request request => exact hcall (.request request)
  | wait milliseconds => exact advance_of_uptime h.uptime_eq milliseconds
  | cutPass changes =>
    rw [perform, cutPass, h.uptime_eq]
    rfl

/-- **It has failed for good**, whatever is done. -/
theorem run (h : s.Halted file) (steps : List (Moment × ServerStep)) :
    (s.run steps).Halted file := by
  induction steps generalizing s with
  | nil => exact h
  | cons step steps ih =>
    have hstep : ((s.during step.1).perform step.2).Halted file := by
      rw [(h.during step.1).perform_eq]
      exact h.during step.1
    exact ih hstep

end Halted

/-- A server over a log that does not start has failed for good, and the file is as it was. -/
theorem halted_start {l : LogStore} (hs : s.Orderly) (hl : s.storage = .log l)
    (hu : s.state = .unknown) {e : StoreError} (h : s.start.result = .error e) :
    s.start.state.Halted l.file := by
  cases s.starts_start with
  | refused _ _ _ hne => exact absurd hu hne
  | kept _ hok =>
    rw [hok] at h
    cases h
  | loaded _ _ _ _ _ hok =>
    rw [hok] at h
    cases h
  | failed _ _ _ _ _ _ ht =>
    have huptime := hs.uptime_eq (by rw [hu]; decide)
    rw [ht]
    refine ⟨rfl, huptime, l, ?_, rfl⟩
    show (Storage.load s.storage).state = .log l
    rw [hl]
    rfl

/-- **A server over a log of any bytes starts with all that is live in it, or not at all.** Where a
record that is live has no key or no values, the server has failed for good, refuses whatever is
asked later and leaves the file as it was opened. -/
theorem start_recovered (content : ByteArray) (period : Nat) (m : Moment) :
    ∃ l events es valid rest, Kind.openAt (.file content) .log = .ok (.log l, events) ∧
      LogStore.Opened content.data.toList es valid rest l events ∧
      let s := (create .log period (.log l)).during m
      (s.start.result = .ok () ↔ ∀ r, Live es r → r.key ≠ "" ∧ r.values ≠ []) ∧
      (s.start.result = .ok () →
        s.start.state.ServesJust fun x => ∃ r, Live es r ∧ x = r.normalized) ∧
      ∀ e, s.start.result = .error e →
        ((e = .emptyKey ∧ ∃ r, Live es r ∧ r.key = "") ∨
          ∃ r, Live es r ∧ r.key ≠ "" ∧ r.values = [] ∧ e = .corruption (.noValues r.key)) ∧
        s.start.state.state = .error ∧
        ∀ steps m', let t := (s.start.state.run steps).during m'
          t.Halted l.file ∧ ∀ c : ServerCall, t.call c = .fail (c.refusal .error) t := by
  obtain ⟨es, valid, rest, ho⟩ := LogStore.opened_recover content
  refine ⟨_, _, es, valid, rest, rfl, ho, ?_⟩
  intro s
  have hs : s.Orderly := (orderly_create (b := .log (LogStore.recover content).1) .log period
    (LogStore.sound_recover content)).during m
  have hload : (Storage.load s.storage).result =
      .ok (LogStore.recover content).1.records.values := rfl
  -- What is loaded is what is live.
  have hlive : ∀ r, r ∈ (LogStore.recover content).1.records.values ↔ Live es r := fun r => by
    have hkeyed : Keyed (Replay.applyAll ∅ es) := Keyed.empty.applyAll es
    rw [ho.records_eq, hkeyed.mem_values_iff, Replay.getElem?_applyAll_iff]
    exact and_iff_left rfl
  refine ⟨?_, fun hok => ?_, fun e he => ⟨?_, ?_⟩⟩
  · simpa only [hlive] using start_eq_ok_iff rfl rfl hload
  · simpa only [hlive] using servesJust_start hs rfl hload hok
  · simpa only [hlive] using start_eq_error rfl rfl hload he
  · have hhalted := halted_start (l := (LogStore.recover content).1.during m) hs rfl rfl he
    refine ⟨hhalted.state_eq, fun steps m' => ?_⟩
    have ht := (hhalted.run steps).during m'
    exact ⟨ht, ht.call_eq⟩

/-- A server over a log in which a record without values was written, and what followed. -/
def trialValueless (steps : List (Moment × LogStep)) : Server Backing :=
  create .log 0 (.log ((LogStore.recover .empty).1.run
    (({}, .write ⟨default, "a", [], ∅⟩) :: steps)))

/-- It does not start with this record, and it does with another in its place. -/
example :
    (trialValueless []).start.result = .error (.corruption (.noValues "a")) ∧
      (trialValueless [({}, .write ⟨default, "a", [[1]], ∅⟩)]).start.result = .ok () := by
  decide +kernel

end Server

end RecordStore
