import RecordStore.Proofs.Failures
import RecordStore.Proofs.Server.Run

/-!
# The life of a server, call by call

Whatever is asked of a server and in whatever order, between two calls it has not been started yet,
runs, has stopped, or has failed for good. Its state alone decides whether a call is refused, and a
call that is refused leaves everything as it is. What the storage does in the meantime, and whether
it can be loaded and written back, decides only where a start and a stop end.

* `ServerCall`, `Server.call`, `Server.callAll`: calls, each after an `Interlude` in which time goes
  by and anything is done to the storage.
* `ServerCall.sources`, `ServerCall.refusal`: the states in which a call is served, and what it is
  refused with in others.
* `Abides`: what every call comes to. `abides`: **servers abide by it in every state.**
* `Settled`: the states between calls. `settled_call` is the step, `Settled.callAll` the run.
* `abides_callAll`: **after any calls a server is settled and abides, and never recovers once it has
  failed.**
* `isRefusal_iff`: over one of the real storages, a call fails as if it were refused just when it
  is.
-/

namespace RecordStore

/-- What can be asked of a server. -/
inductive ServerCall where
  | start
  | stop
  | syncNow
  | request (request : Request)

namespace ServerCall

/-- The states in which a call is served. -/
def sources : ServerCall → List Lifecycle
  | start => [.unknown, .stopped]
  | stop => [.running]
  | syncNow => [.running]
  | request _ => [.running]

/-- What a call is refused with in any other state. -/
def refusal (state : Lifecycle) : ServerCall → StoreError
  | start => .invalidTransition state .starting
  | stop => .invalidTransition state .stopping
  | syncNow => .notRunning state
  | request _ => .notRunning state

theorem error_not_mem_sources (c : ServerCall) : .error ∉ c.sources := by
  cases c <;> simp [sources]

theorem isRefusal_refusal (state : Lifecycle) (c : ServerCall) :
    (c.refusal state).isRefusal = true := by
  cases c <;> rfl

end ServerCall

/-- What a call gives back. -/
inductive ServerAnswer where
  | started
  | report (report : PassReport)
  | reply (reply : Reply)

/-- What happens before a call: something is done to the storage, and then time goes by, with the
passes that come due. -/
structure Interlude (σ : Type) where
  change : σ → σ := id
  milliseconds : Nat := 0

namespace Server

variable {σ : Type} [Storage σ]

/-- Makes a call. -/
def call (c : ServerCall) (s : Server σ) : Outcome (Server σ) ServerAnswer :=
  match c with
  | .start => s.start.map fun _ => .started
  | .stop => s.stop.map .report
  | .syncNow => s.syncNow.map .report
  | .request request => (s.handle request).map .reply

/-- The server after an interlude. -/
def after (i : Interlude σ) (s : Server σ) : Server σ :=
  ({ s with storage := i.change s.storage }.advance i.milliseconds).1

/-- The server after some calls, each with what happens before it. -/
def callAll (calls : List (Interlude σ × ServerCall)) (s : Server σ) : Server σ :=
  calls.foldl (fun s c => (call c.2 (s.after c.1)).state) s

/-- What every call comes to. -/
structure Abides (s : Server σ) : Prop where
  /-- A call that is refused changes nothing, and nothing is noted. -/
  refused : ∀ c : ServerCall, s.state ∉ c.sources → s.call c = .fail (c.refusal s.state) s
  /-- Any other call does not fail as if it were, unless it loads and the storage fails so. -/
  served : ∀ (c : ServerCall) (e : StoreError), s.state ∈ c.sources →
    (s.call c).result = .error e → e.isRefusal = true →
    c = .start ∧ (Storage.load s.storage).result = .error e
  /-- Whether the records can be loaded decides what becomes of a start. -/
  start : s.state = .unknown ∨ s.state = .stopped →
    (s.load.result = .ok () ∧ s.start.result = .ok () ∧ s.start.state.state = .running) ∨
    ∃ e, s.load.result = .error e ∧ s.start.result = .error e ∧ s.start.state.state = .error
  /-- Whether the last pass succeeds decides what becomes of a stop. -/
  stop : s.state = .running →
    (∃ report, s.runPass.result = .ok report ∧ s.stop.result = .ok report ∧
      s.stop.state.state = .stopped) ∨
    ∃ e, s.runPass.result = .error e ∧ s.stop.result = .error e ∧ s.stop.state.state = .error
  syncNow : s.state = .running → s.syncNow = s.runPass ∧ s.syncNow.state.state = .running
  request : s.state = .running → ∀ request,
    (s.handle request).result = (s.container.answer request).1 ∧
    (s.handle request).state = { s with container := (s.container.answer request).2 }

omit [Storage σ] in
/-- The states that a server may be in between two calls. -/
def Settled (s : Server σ) : Prop :=
  s.state = .unknown ∨ s.state = .running ∨ s.state = .stopped ∨ s.state = .error

variable {s : Server σ} {c : ServerCall}

omit [Storage σ] in
theorem mem_sources_start :
    s.state ∈ ServerCall.start.sources ↔ s.state = .unknown ∨ s.state = .stopped := by
  simp [ServerCall.sources]

/-! ## Refusals -/

theorem start_of_not_mem (h : s.state ∉ ServerCall.start.sources) :
    s.start = .fail (.invalidTransition s.state .starting) s := by
  have hm : Lifecycle.moveFromAny [.unknown, .stopped] .starting s.state =
      .error (.invalidTransition s.state .starting) := if_neg h
  rw [start, hm]

theorem stop_of_not_running (h : s.state ≠ .running) :
    s.stop = .fail (.invalidTransition s.state .stopping) s := by
  rcases s.stop_cases with ⟨-, hs⟩ | ⟨hs, -⟩
  · exact hs
  · exact absurd hs h

theorem syncNow_of_running (h : s.state = .running) : s.syncNow = s.runPass := by
  rw [syncNow, checkRunning_of_running h]

theorem syncNow_of_not_running (h : s.state ≠ .running) :
    s.syncNow = .fail (.notRunning s.state) s := by
  rw [syncNow, checkRunning_of_not_running h]

/-- **A call that is refused changes nothing.** -/
theorem call_of_not_mem (h : s.state ∉ c.sources) : s.call c = .fail (c.refusal s.state) s := by
  cases c with
  | start =>
    rw [call, start_of_not_mem h]
    rfl
  | stop =>
    rw [call, stop_of_not_running (List.ne_of_not_mem_cons h)]
    rfl
  | syncNow =>
    rw [call, syncNow_of_not_running (List.ne_of_not_mem_cons h)]
    rfl
  | request request =>
    rw [call, handle_of_not_running (List.ne_of_not_mem_cons h)]
    rfl

/-! ## Starting and stopping -/

/-- Loading does not depend on the state. -/
theorem load_with (state : Lifecycle) (s : Server σ) :
    load { s with state } = s.load.within fun t => { t with state } := by
  unfold load
  split
  · cases hl : (Storage.load s.storage).result with
    | error e =>
      simp only [hl]
      rfl
    | ok stored =>
      simp only [hl]
      rfl
  · rfl

/-- **A start ends as loading does.** -/
theorem start_cases (h : s.state = .unknown ∨ s.state = .stopped) :
    (s.load.result = .ok () ∧ s.start.result = .ok () ∧ s.start.state.state = .running) ∨
    ∃ e, s.load.result = .error e ∧ s.start.result = .error e ∧ s.start.state.state = .error := by
  have hm : Lifecycle.moveFromAny [.unknown, .stopped] .starting s.state = .ok .starting := by
    rcases h with h | h <;> rw [h] <;> rfl
  have hr : (s.load.within fun t => { t with state := .starting }).result = s.load.result := rfl
  rw [start, hm]
  dsimp only
  rw [load_with .starting s, hr]
  cases s.load.result with
  | ok u => exact .inl ⟨rfl, rfl, rfl⟩
  | error e => exact .inr ⟨e, rfl, rfl, rfl⟩

/-- Loading fails as the storage does, or because of what it loaded. -/
theorem load_eq_error {e : StoreError} (h : s.load.result = .error e) :
    (Storage.load s.storage).result = .error e ∨ e.isOfLoad = true := by
  unfold load at h
  split at h
  · cases hl : (Storage.load s.storage).result with
    | error e' =>
      simp only [hl] at h
      cases h
      exact .inl rfl
    | ok stored =>
      simp only [hl] at h
      exact .inr (((∅ : Container).failsWith_load stored).map (fun _ => ()) e h)
  · cases h

/-- **A stop ends as its pass does.** -/
theorem stop_of_running (h : s.state = .running) :
    (∃ report, s.runPass.result = .ok report ∧ s.stop.result = .ok report ∧
      s.stop.state.state = .stopped) ∨
    ∃ e, s.runPass.result = .error e ∧ s.stop.result = .error e ∧
      s.stop.state.state = .error := by
  rcases s.stop_cases with ⟨hs, -⟩ | ⟨-, ⟨report, hp, hr, ht⟩ | ⟨e, hp, hr, ht⟩⟩
  · exact absurd h hs
  · exact .inl ⟨report, hp, hr, by rw [ht]⟩
  · exact .inr ⟨e, hp, hr, by rw [ht]⟩

/-! ## Every call -/

/-- A call that is served does not fail as if it were refused, but loading may. -/
theorem eq_start_of_isRefusal {e : StoreError} (h : s.state ∈ c.sources)
    (hr : (s.call c).result = .error e) (he : e.isRefusal = true) :
    c = .start ∧ (Storage.load s.storage).result = .error e := by
  have hnot : ∀ {P : Prop}, e.isRefusal = false → P := fun hf => by
    rw [he] at hf
    cases hf
  have hpass : ∀ {P : Prop}, s.runPass.result = .error e → P := fun hp =>
    hnot (StoreError.isRefusal_of_isOfPass (failsWith_pass s.container.snapshots s.storage e hp))
  cases c with
  | start =>
    rw [call, Outcome.result_map_eq_error] at hr
    rcases start_cases (mem_sources_start.mp h) with ⟨-, ho, -⟩ | ⟨e', hl, ho, -⟩
    · rw [ho] at hr
      cases hr
    · rw [ho] at hr
      cases hr
      rcases load_eq_error hl with hl | hl
      · exact ⟨rfl, hl⟩
      · exact hnot (StoreError.isRefusal_of_isOfLoad hl)
  | stop =>
    rw [call, Outcome.result_map_eq_error] at hr
    rcases stop_of_running (List.mem_singleton.mp h) with ⟨report, -, ho, -⟩ | ⟨e', hp, ho, -⟩
    · rw [ho] at hr
      cases hr
    · rw [ho] at hr
      cases hr
      exact hpass hp
  | syncNow =>
    rw [call, Outcome.result_map_eq_error, syncNow_of_running (List.mem_singleton.mp h)] at hr
    exact hpass hr
  | request request =>
    rw [call, Outcome.result_map_eq_error,
      (handle_of_running (List.mem_singleton.mp h) request).1] at hr
    exact hnot (StoreError.isRefusal_of_isOfRequest (s.container.failsWith_answer request e hr))

/-- **Servers abide by this in every state.** -/
theorem abides (s : Server σ) : Abides s where
  refused _ := call_of_not_mem
  served _ _ := eq_start_of_isRefusal
  start := start_cases
  stop := stop_of_running
  syncNow h := ⟨syncNow_of_running h, by rw [syncNow_of_running h]; exact h⟩
  request h := handle_of_running h

/-! ## Any calls -/

theorem state_periodicPasses (n : Nat) (s : Server σ) : (periodicPasses n s).1.state = s.state := by
  induction n generalizing s with
  | zero => rfl
  | succ n ih =>
    rw [periodicPasses]
    split
    · obtain ⟨uptime, -, hp⟩ := s.exists_periodicPass_eq
      have hs : s.periodicPass.1.state = s.state := by rw [hp]
      exact (ih s.periodicPass.1).trans hs
    · rfl

/-- Nothing that happens between two calls changes the state. -/
theorem state_after (i : Interlude σ) (s : Server σ) : (s.after i).state = s.state :=
  state_periodicPasses _ { s with storage := i.change s.storage }

/-- **A call leads from one settled state to another.** -/
theorem settled_call (h : Settled s) (c : ServerCall) : Settled (s.call c).state := by
  by_cases hm : s.state ∈ c.sources
  · cases c with
    | start =>
      rcases start_cases (mem_sources_start.mp hm) with ⟨-, -, hs⟩ | ⟨e, -, -, hs⟩
      · exact .inr (.inl hs)
      · exact .inr (.inr (.inr hs))
    | stop =>
      rcases stop_of_running (List.mem_singleton.mp hm) with ⟨report, -, -, hs⟩ | ⟨e, -, -, hs⟩
      · exact .inr (.inr (.inl hs))
      · exact .inr (.inr (.inr hs))
    | syncNow => exact .inr (.inl ((abides s).syncNow (List.mem_singleton.mp hm)).2)
    | request request =>
      have hs : s.state = .running := List.mem_singleton.mp hm
      exact .inr (.inl ((congrArg Server.state (handle_of_running hs request).2).trans hs))
  · rw [call_of_not_mem hm]
    exact h

theorem Settled.callAll (h : Settled s) (calls : List (Interlude σ × ServerCall)) :
    Settled (s.callAll calls) := by
  induction calls generalizing s with
  | nil => exact h
  | cons c calls ih =>
    refine ih (settled_call ?_ c.2)
    rwa [Settled, state_after]

/-- **A server that has failed never recovers**: it refuses every call. -/
theorem callAll_of_error (h : s.state = .error) (calls : List (Interlude σ × ServerCall)) :
    (s.callAll calls).state = .error := by
  induction calls generalizing s with
  | nil => exact h
  | cons c calls ih =>
    have ha : (s.after c.1).state = .error := (state_after c.1 s).trans h
    have hm : (s.after c.1).state ∉ c.2.sources := ha ▸ c.2.error_not_mem_sources
    have hc : callAll (c :: calls) s = callAll calls ((s.after c.1).call c.2).state := rfl
    rw [hc, call_of_not_mem hm]
    exact ih ha

/-- **After any calls a server is in one of four states, abides by what every call comes to, and
stays where it is once it has failed.** The storage is any, and so is what is done to it and how
much time goes by before each call. -/
theorem abides_callAll (storage : σ) (kind : Kind) (period : Nat)
    (calls : List (Interlude σ × ServerCall)) :
    let s := callAll calls { storage, kind, period }
    Settled s ∧ (∀ i : Interlude σ, (s.after i).state = s.state ∧ Abides (s.after i)) ∧
      (s.state = .error → ∀ more, (s.callAll more).state = .error) :=
  ⟨Settled.callAll (.inl rfl) calls, fun i => ⟨state_after i _, abides _⟩, callAll_of_error⟩

/-- A server that could not load starts neither then nor later. -/
example : (callAll [({}, .start), ({}, .stop), ({}, .start)]
    { storage := (⟨∅, [⟨.load, 0, .fail (.backend .system)⟩], false⟩ : Faulty MemoryStore)
      kind := .memory, period := 1 }).state = .error := by
  decide +kernel

/-- **A call to a server over one of the real storages fails like a refused one just when it is.** -/
theorem isRefusal_iff {s : Server Backing} {c : ServerCall} :
    (∃ e, (s.call c).result = .error e ∧ e.isRefusal = true) ↔ s.state ∉ c.sources := by
  constructor
  · rintro ⟨e, hr, he⟩ hm
    obtain ⟨-, hl⟩ := eq_start_of_isRefusal hm hr he
    rw [StoreError.isRefusal_of_isOfLoad (Backing.failsWith_load s.storage e hl)] at he
    cases he
  · intro hm
    exact ⟨c.refusal s.state, by rw [call_of_not_mem hm]; rfl, c.isRefusal_refusal s.state⟩

end Server

end RecordStore
