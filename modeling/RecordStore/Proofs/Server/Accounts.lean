import Mathlib.Data.List.Induction
import RecordStore.Proofs.Server.Versions

/-!
# Every change of a record is counted once

The counter of a record starts at one, or at what was loaded, and has counted just the changes that
were made since: requests that fail, requests that only read, requests on other keys, passes,
stops and starts never move it. The other metadata entries are what they were last set to.

* `Begins`: how a key comes to be held, and with which metadata.
* `Begins.get?`, `begun_of_get?`: **what has begun is held, and what is held has begun at some step
  and was not deleted since.**
* `Shows`: what a server shows of the metadata of a key.
* `accounts_run`: **the counter and the entries at the end of any run.**
-/

namespace RecordStore

open Transcript (changes entry Keeps)

namespace Server

/-- **How a key comes to be held**, and with which metadata: a record is created, or it is loaded at
the first start. -/
inductive Begins (key : String) (s : Server Backing) : ServerStep → Metadata → Prop
  | created (value : Bytes) (fresh : Id) (absent : s.container.get? key = none)
    (answered : (s.handle (.set key value fresh)).result = .ok (.version 0)) :
    Begins key s (.request (.set key value fresh)) ∅
  | loaded (stored : List Snapshot) (r : Snapshot) (unknown : s.state = .unknown)
    (retains_eq : Storage.retains s.storage = true) (started : s.start.result = .ok ())
    (load_eq : (Storage.load s.storage).result = .ok stored) (mem : r ∈ stored)
    (key_eq : r.key = key) : Begins key s .start (.ofDict r.metadata)

variable {s : Server Backing} {key : String} {r : Record}

/-- What has begun is held, with the metadata that it began with. -/
theorem Begins.get? {step : ServerStep} {first : Metadata} (hs : s.Orderly)
    (h : Begins key s step first) :
    (s.perform step).state = .running ∧
      ∃ r, (s.perform step).container.get? key = some r ∧ r.metadata = first := by
  cases h with
  | created value fresh hnone hok =>
    by_cases hrun : s.state = .running
    · obtain ⟨hresult, hstate⟩ := handle_of_running hrun (.set key value fresh)
      rw [hresult] at hok
      rw [perform, hstate]
      rcases Container.answer_set_cases hok with ⟨-, -, hafter⟩ | ⟨r, hr, -⟩
      · rw [hafter]
        exact ⟨hrun, _, Container.get?_insert_self _ _ _, rfl⟩
      · rw [hnone] at hr
        cases hr
    · rw [handle_of_not_running hrun] at hok
      cases hok
  | loaded stored r hu hretains hok hload hm hkey =>
    obtain ⟨r', hr', hget, hstate⟩ := get?_start_of_load hs hok hretains hload hm
    obtain ⟨-, -, -, -, hmetadata⟩ := Record.ofSnapshot_cases hr'
    exact ⟨hstate, r', hkey ▸ hget, hmetadata⟩

/-- What a first start makes a server hold was loaded. -/
theorem exists_begins_start (hs : s.Orderly) (hu : s.state = .unknown)
    (hne : s.start.state.state ≠ .error) (hr : s.start.state.container.get? key = some r) :
    ∃ first, Begins key s .start first := by
  cases s.starts_start with
  | refused _ _ _ h => exact absurd hu h
  | kept _ _ ht =>
    rw [ht, hs.container_eq hu, Container.get?_empty] at hr
    cases hr
  | loaded stored _ hretains hl hc hok ht =>
    rw [ht] at hr
    obtain ⟨snapshot, hm, hkey, -⟩ :=
      Container.exists_of_get?_load (hs.inOrder.nodup_load hl) hc hr
    exact ⟨_, .loaded stored snapshot hu hretains hok hl hm hkey⟩
  | failed _ _ _ _ _ _ ht =>
    rw [ht] at hne
    exact absurd rfl hne

/-- That a key has come to be held at one of some steps and was not deleted since. -/
def Begun (s : Server Backing) (key : String) (steps : List (Moment × ServerStep)) : Prop :=
  ∃ before m step after first, steps = before ++ (m, step) :: after ∧
    Begins key ((s.run before).during m) step first ∧
    Keeps key ((((s.run before).during m).perform step).answered after)

/-- What has begun goes on with one more step. -/
theorem Begun.append {steps : List (Moment × ServerStep)} {m : Moment} {step : ServerStep}
    (h : Begun s key steps) (hk : Keeps key (replies step ((s.run steps).during m))) :
    Begun s key (steps ++ [(m, step)]) := by
  obtain ⟨before, m', step', after, first, rfl, hb, hk'⟩ := h
  rw [run_append] at hk
  refine ⟨before, m', step', after ++ [(m, step)], first, ?_, hb, ?_⟩
  · rw [List.append_assoc, List.cons_append]
  · rw [answered_append, answered, answered, List.append_nil]
    exact List.forall_mem_append.mpr ⟨hk', hk⟩

/-- **What is held has begun at some step.** -/
theorem begun_of_get? (hs : s.Orderly) (hu : s.state = .unknown)
    {steps : List (Moment × ServerStep)} (hne : (s.run steps).state ≠ .error)
    (hr : (s.run steps).container.get? key = some r) : Begun s key steps := by
  induction steps using List.reverseRecOn generalizing r with
  | nil =>
    have hempty : (s.run []).container = ∅ := hs.container_eq hu
    rw [hempty, Container.get?_empty] at hr
    cases hr
  | append_singleton steps last ih =>
    obtain ⟨m, step⟩ := last
    have ht : ((s.run steps).during m).Orderly := (hs.run steps).during m
    rw [run_append] at hne hr
    have hne' : (s.run steps).state ≠ .error := fun h =>
      hne (state_perform_of_error (s := (s.run steps).during m) h step)
    by_cases hfirst : step = .start ∧ ((s.run steps).during m).state = .unknown
    · obtain ⟨rfl, hunknown⟩ := hfirst
      obtain ⟨first, hb⟩ := exists_begins_start ht hunknown hne hr
      exact ⟨steps, m, .start, [], first, rfl, hb, nofun⟩
    · rcases container_perform ht step fun h h' => hfirst ⟨h, h'⟩ with
        ⟨request, reply, rfl, hok, ha⟩ | ⟨hl, hc⟩
      · rcases Container.answered_origin ha hr with
          ⟨r', hr', hd⟩ | ⟨hnone, value, fresh, rfl, rfl, -⟩
        · refine (ih hne' hr').append ?_
          rw [replies_of_ok hok]
          exact List.forall_mem_singleton.mpr hd
        · exact ⟨steps, m, _, [], _, rfl, .created value fresh hnone hok, nofun⟩
      · refine (ih hne' (hc ▸ hr)).append ?_
        rw [hl]
        exact nofun

/-! ## What is shown -/

/-- That a server shows a counter and some other entries for a key. -/
structure Shows (s : Server Backing) (key : String) (count : Nat)
    (entries : String → Option String) : Prop where
  version_eq : (s.handle (.getMetadata key counterName)).result = .ok (.text count.repr)
  list_eq : ∃ listed, (s.handle (.listMetadata key)).result = .ok (.metadata listed) ∧
    listed[counterName]? = some count.repr ∧ ∀ name, name ≠ counterName →
      listed[name]? = entries name
  get_eq : ∀ name, name ≠ "" → name ≠ counterName →
    (s.handle (.getMetadata key name)).result =
      (entries name).elim (.error (.metadataKeyNotFound key name)) fun value => .ok (.text value)
  /-- The next change of metadata is answered with the next number, as long as there is one. -/
  set_eq : count + 1 < 0x10000000000000000 → ∀ name value reply,
    (s.handle (.setMetadata key name value)).result = .ok reply → reply = .counter (count + 1)
  delete_eq : count + 1 < 0x10000000000000000 → ∀ name reply,
    (s.handle (.deleteMetadata key name)).result = .ok reply → reply = .counter (count + 1)

/-- **A running server shows the metadata of a record.** -/
theorem shows_of_get? (hs : s.Orderly) (hrun : s.state = .running)
    (hr : s.container.get? key = some r) :
    Shows s key r.metadata.counter fun name => r.metadata.entries[name]? := by
  have hrequire := Container.require_of_get? (hs.coherent.ne_empty hr) hr
  have hget : ∀ name, name ≠ "" → (s.handle (.getMetadata key name)).result =
      (r.metadata.get? name).elim (.error (.metadataKeyNotFound key name))
        fun value => .ok (.text value) := by
    intro name hn
    rw [(handle_of_running hrun _).1]
    simp only [Container.answer, hrequire, Except.bind, Record.getMetadata, hs.coherent.key_eq hr]
    rw [if_neg (by simp [hn])]
    cases r.metadata.get? name <;> rfl
  refine ⟨?_, ⟨r.metadata.toDict, ?_, ?_, fun name hn => ?_⟩, fun name hn hc => ?_,
    fun hlt name value reply h => ?_, fun hlt name reply h => ?_⟩
  · rw [hget counterName (by decide), Metadata.get?, if_pos rfl]
    rfl
  · rw [(handle_of_running hrun _).1]
    simp only [Container.answer, hrequire, Except.map]
  · rw [Metadata.getElem?_toDict, Metadata.get?, if_pos rfl]
  · rw [Metadata.getElem?_toDict, Metadata.get?, if_neg hn]
  · rw [hget name hn, Metadata.get?, if_neg hc]
  · rw [(handle_of_running hrun _).1] at h
    obtain ⟨r₁, r', hr₁, hr', rfl⟩ := Container.exists_of_setMetadata h
    obtain rfl : r₁ = r := Option.some.inj (hr₁.symm.trans hr)
    obtain ⟨m, hm, rfl⟩ := Record.setMetadata_cases hr'
    obtain ⟨-, -, hcounter⟩ := Metadata.set_cases hm
    rw [hcounter, Metadata.next_of_lt hlt]
  · rw [(handle_of_running hrun _).1] at h
    obtain ⟨r₁, r', hr₁, hr', rfl⟩ := Container.exists_of_deleteMetadata h
    obtain rfl : r₁ = r := Option.some.inj (hr₁.symm.trans hr)
    obtain ⟨m, hm, rfl⟩ := Record.deleteMetadata_cases hr'
    obtain ⟨-, -, hcounter⟩ := Metadata.delete_cases hm
    rw [hcounter, Metadata.next_of_lt hlt]

/-- No request sets or removes the counter. -/
theorem handle_counterName (s : Server Backing) (key value : String) :
    (∀ reply, (s.handle (.setMetadata key counterName value)).result ≠ .ok reply) ∧
      ∀ reply, (s.handle (.deleteMetadata key counterName)).result ≠ .ok reply := by
  by_cases hrun : s.state = .running
  · constructor
    · intro reply h
      rw [(handle_of_running hrun _).1] at h
      obtain ⟨r, r', -, hr', -⟩ := Container.exists_of_setMetadata h
      obtain ⟨m, hm, -⟩ := Record.setMetadata_cases hr'
      exact (Metadata.set_cases hm).1 rfl
    · intro reply h
      rw [(handle_of_running hrun _).1] at h
      obtain ⟨r, r', -, hr', -⟩ := Container.exists_of_deleteMetadata h
      obtain ⟨m, hm, -⟩ := Record.deleteMetadata_cases hr'
      exact (Metadata.delete_cases hm).1 rfl
  · constructor
    · intro reply h
      rw [handle_of_not_running hrun] at h
      cases h
    · intro reply h
      rw [handle_of_not_running hrun] at h
      cases h

/-- **The accounts of a key at the end of any run.** Wherever it has come to be held and was not
deleted since, its counter is the one that it began with and all changes since, and its other
entries are as they were last left. -/
theorem accounts_run {b : Backing} (hb : b.Given) (kind : Kind) (period : Nat)
    (steps : List (Moment × ServerStep)) (m : Moment) (key : String) :
    let s := ((create kind period b).run steps).during m
    (s.state = .running → ∀ before m₀ step after first,
      steps = before ++ (m₀, step) :: after →
      Begins key (((create kind period b).run before).during m₀) step first →
        let log := ((((create kind period b).run before).during m₀).perform step).answered after
        Keeps key log → first.counter + changes key log < 0x10000000000000000 →
          Shows s key (first.counter + changes key log) fun name =>
            entry key name first.entries[name]? log) ∧
    -- Every key that is held has come to be held so.
    (s.state = .running → s.container.contains key = true → Begun (create kind period b) key steps) ∧
    -- No request sets or removes the counter.
    ∀ value, (∀ reply, (s.handle (.setMetadata key counterName value)).result ≠ .ok reply) ∧
      ∀ reply, (s.handle (.deleteMetadata key counterName)).result ≠ .ok reply := by
  intro s
  have hcreate : (create kind period b).Orderly := orderly_create kind period hb.inOrder
  have hs : s.Orderly := (hcreate.run steps).during m
  refine ⟨fun hrun before m₀ step after first hsteps hbegins => ?_, fun hrun hkey => ?_,
    handle_counterName s key⟩
  · intro log hk hlt
    have hbefore := (hcreate.run before).during m₀
    obtain ⟨hrun₀, r₀, hr₀, rfl⟩ := hbegins.get? hbefore
    obtain ⟨r, hr, hg⟩ := grown_run (hbefore.perform step) (by simp [hrun₀]) hr₀ after hk
    have hend : s.container.get? key = some r := by
      rw [← hr]
      subst hsteps
      exact congrArg (fun s => s.container.get? key) (run_append before _ (create kind period b))
    have hshows := shows_of_get? hs hrun hend
    rw [hg.counter_eq, Nat.mod_eq_of_lt hlt] at hshows
    refine { hshows with list_eq := ?_, get_eq := fun name hn hc => ?_ }
    · obtain ⟨listed, hlist, hversion, hentries⟩ := hshows.list_eq
      exact ⟨listed, hlist, hversion,
        fun name hn => (hentries name hn).trans (hg.entries_eq name hn)⟩
    · rw [hshows.get_eq name hn hc, hg.entries_eq name hc]
  · obtain ⟨r, hr⟩ : ∃ r, s.container.get? key = some r := by
      rw [← Option.isSome_iff_exists]
      simpa [Container.get?, Container.contains] using hkey
    refine begun_of_get? hcreate rfl ?_ hr
    rw [show ((create kind period b).run steps).state = .running from hrun]
    decide

/-- A record that has been changed often. -/
def trialAged : Snapshot := ⟨default, "a", [[0]], (∅ : Dict String).insert counterName "41"⟩

/-- A server over tables with the record. -/
def trialCounter : Server Backing := create .tables 0 (.tables (TableStore.write trialAged ∅).state)

/-- After the start, the record is changed three times, and not by what fails, by another key or by
a stop and a start. -/
def trialChanges : List (Moment × ServerStep) :=
  [({}, .request (.set "a" [1] default)), ({}, .request (.setMetadata "a" counterName "9")),
    ({}, .request (.setMetadata "a" "b" "c")), ({}, .request (.set "d" [2] default)),
    ({}, .stop), ({}, .start), ({}, .request (.deleteMetadata "a" "b"))]

/-- The counter has gone on from 41 to 44. -/
theorem accounts_run_trial :
    Begins "a" (trialCounter.during {}) .start (.ofDict trialAged.metadata) ∧
    Shows ((trialCounter.run (({}, .start) :: trialChanges)).during {}) "a" 44 fun _ => none := by
  have hbegins : Begins "a" (trialCounter.during {}) .start (.ofDict trialAged.metadata) := by
    have hok : (trialCounter.during {}).start.result = .ok () := by decide +kernel
    have hload : (Storage.load (trialCounter.during {}).storage).result = .ok [trialAged] := by
      decide +kernel
    exact .loaded _ _ rfl rfl hok hload List.mem_cons_self rfl
  have hrun : ((trialCounter.run (({}, .start) :: trialChanges)).during {}).state = .running := by
    decide +kernel
  have hlog : ((trialCounter.during {}).perform .start).answered trialChanges =
      [(.set "a" [1] default, .version 1), (.setMetadata "a" "b" "c", .counter 43),
        (.set "d" [2] default, .version 0), (.deleteMetadata "a" "b", .counter 44)] := by
    decide +kernel
  have hkeeps : Keeps "a" (((trialCounter.during {}).perform .start).answered trialChanges) := by
    rw [hlog]
    unfold Keeps
    decide
  have hcounter : (Metadata.ofDict trialAged.metadata).counter = 41 := by decide +kernel
  have hentries : (Metadata.ofDict trialAged.metadata).entries = ∅ := by decide +kernel
  obtain ⟨haccounts, -, -⟩ := accounts_run (.tables (TableStore.write trialAged ∅).state) .tables 0
    (({}, .start) :: trialChanges) {} "a"
  have hshows := haccounts hrun [] {} .start trialChanges _ rfl hbegins hkeeps
  rw [run_nil, show create .tables 0 (.tables (TableStore.write trialAged ∅).state) = trialCounter
    from rfl, hlog, hcounter, hentries] at hshows
  refine ⟨hbegins, ?_⟩
  convert hshows (by decide) using 1
  · decide
  · funext name
    by_cases hn : "b" = name <;> simp [entry, Request.entry, hn]

end Server

end RecordStore
