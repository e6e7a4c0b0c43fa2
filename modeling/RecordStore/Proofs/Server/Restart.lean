import RecordStore.Proofs.Server.Run

/-!
# What a server stops with the next one starts with

When a server over a file stops and its last pass succeeds, the file holds just its records. So a
new server over the same file starts, holds the same records under the same keys, with their ids,
and answers every request as the old one would have done before it stopped.

* `start_of_mirrors`: a server over a storage that holds the records of a container starts with them.
* `restart_round_trip`: **whatever was done to the old server before**.
-/

namespace RecordStore.Server

variable {σ : Type}

/-- Only a running server stops, and its records are those of the last pass. -/
theorem stop_eq_ok [Storage σ] {s : Server σ} {report : PassReport} (h : s.stop.result = .ok report) :
    s.state = .running ∧ (pass s.container.snapshots s.storage).result = .ok report ∧
      s.stop.state.storage = (pass s.container.snapshots s.storage).state := by
  rcases s.stop_cases with ⟨-, ht⟩ | ⟨hs, ⟨report', hp, hr, ht⟩ | ⟨e, -, hr, -⟩⟩
  · rw [ht] at h
    cases h
  · rw [hr] at h
    cases h
    exact ⟨hs, hp, by rw [ht]⟩
  · rw [hr] at h
    cases h

/-- Running servers with the same records answer alike. -/
theorem handle_congr {s t : Server σ} (hs : s.state = .running) (ht : t.state = .running)
    (hc : t.container = s.container) (request : Request) :
    (t.handle request).result = (s.handle request).result := by
  rw [(handle_of_running hs request).1, (handle_of_running ht request).1, hc]

/-- **A server starts with the records that its storage holds.** -/
theorem start_of_mirrors {s : Server Backing} (hs : s.state = .unknown) {c : Container}
    (hc : c.Coherent) (hm : s.storage.Mirrors c.stored) :
    s.start.result = .ok () ∧ s.start.state.state = .running ∧
      s.start.state.container = c := by
  obtain ⟨hl, -⟩ := hm.load hc.keyed hc.values_ne_nil
  obtain ⟨hcount, hcontainer⟩ := hc.load_stored
  cases s.starts_start with
  | refused _ _ _ hu => exact absurd hs hu
  | kept hr =>
    cases hb : s.storage with
    | discard d =>
      rw [hb] at hm
      cases hm
    | _ =>
      rw [hb] at hr
      cases hr
  | loaded stored _ _ hl' _ hr ht =>
    rw [hl] at hl'
    cases hl'
    rw [ht]
    exact ⟨hr, rfl, hcontainer⟩
  | failed _ _ _ hne => exact absurd hcount (hne _ _ hl)

/-- **A new server over the file of one that has stopped goes on where that was**, whatever was
stored before the first start and whatever was done until the last stop. -/
theorem restart_round_trip {b : Backing} (hb : b.Given) (hf : b.inFile = true) (kind : Kind)
    (period : Nat) (steps : List (Moment × ServerStep)) (m : Moment) {report : PassReport}
    (hstop : (((create kind period b).run steps).during m).stop.result = .ok report) (kind' : Kind)
    (period' : Nat) (m' : Moment) :
    let s := ((create kind period b).run steps).during m
    let t := ((create kind' period' s.stop.state.storage.reopen).during m').start
    t.result = .ok () ∧ t.state.state = .running ∧ t.state.container = s.container ∧
      ∀ request, (t.state.handle request).result = (s.handle request).result := by
  intro s t
  have hs : s.Orderly := ((orderly_create kind period hb.inOrder).run steps).during m
  obtain ⟨hrunning, hpass, hstorage⟩ := stop_eq_ok hstop
  have hkind : s.storage.kind = b.kind :=
    (Backing.kind_during m _).trans (kind_run steps (create kind period b))
  -- What the last pass has left is in the file.
  have hretains : Storage.retains s.storage = true := by
    rw [Backing.retains_congr hkind]
    cases b <;> first | rfl | cases hf
  have hmirrors : (pass s.container.snapshots s.storage).state.Mirrors s.container.stored := by
    rw [s.container.snapshots_eq] at hpass ⊢
    exact Backing.mirrors_pass hretains hs.coherent.keyed hpass
  have hfile : (pass s.container.snapshots s.storage).state.inFile = true := by
    rw [Backing.inFile_congr (((Backing.invariant_kind _).pass _ rfl).trans hkind)]
    exact hf
  have hreopen : (s.stop.state.storage.reopen.during m').Mirrors s.container.stored := by
    rw [hstorage]
    exact (hmirrors.reopen (Backing.invariant_inOrder.pass _ hs.inOrder) hfile).during m'
  -- So it is what the new server loads.
  obtain ⟨hok, hstate, hcontainer⟩ := start_of_mirrors
    (s := (create kind' period' s.stop.state.storage.reopen).during m') rfl hs.coherent hreopen
  exact ⟨hok, hstate, hcontainer, handle_congr hrunning hstate hcontainer⟩

/-- A server over a log in which a record was created, kept over a stop, and changed twice. -/
def trialServer : Server Backing :=
  ((create .log 0 (.log (((LogStore.recover .empty).1.run []).during {}))).run
    [({}, .start), ({}, .request (.set "a" [1] default)), ({}, .stop), ({}, .start),
      ({}, .request (.set "a" [2] default)), ({}, .request (.setMetadata "a" "b" "c"))]).during {}

/-- The next server knows both values and the counter of all three changes. -/
theorem restart_round_trip_trial :
    trialServer.stop.result = .ok ⟨0, 1⟩ ∧
    let t := ((create .log 0 trialServer.stop.state.storage.reopen).during {}).start
    t.result = .ok () ∧
      (t.state.handle (.get "a" (.number 0))).result = .ok (.value [1]) ∧
      (t.state.handle (.get "a" (.number 2))).result = .error (.outOfRange 2 2) ∧
      (t.state.handle (.getMetadata "a" counterName)).result = .ok (.text "3") := by
  have hstop : trialServer.stop.result = .ok ⟨0, 1⟩ := by decide +kernel
  have hvalue : (trialServer.handle (.get "a" (.number 0))).result = .ok (.value [1]) := by
    decide +kernel
  have hbeyond : (trialServer.handle (.get "a" (.number 2))).result =
      .error (.outOfRange 2 2) := by
    decide +kernel
  have hcounter : (trialServer.handle (.getMetadata "a" counterName)).result =
      .ok (.text "3") := by
    decide +kernel
  obtain ⟨hok, -, -, hhandle⟩ :=
    restart_round_trip (.log .empty [] {}) rfl .log 0 _ {} hstop .log 0 {}
  exact ⟨hstop, hok, (hhandle _).trans hvalue, (hhandle _).trans hbeyond,
    (hhandle _).trans hcounter⟩

end RecordStore.Server
