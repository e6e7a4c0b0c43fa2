import RecordStore.Proofs.Request
import RecordStore.Proofs.Storage.Mirror
import RecordStore.Server

/-!
# Servers step by step

A server is started and stopped, answers requests and makes passes, in any order, and at every step
the system may let something else be done with what it is kept in. What it holds changes with the
requests that are answered and with nothing else, from the first start on: passes only read it, and
what a stopped server loads when it starts again is what it wrote when it stopped.

* `ServerStep`, `Server.perform`, `Server.run`: the steps of a server and what they do.
* `Server.answered`: the requests that are answered along the way.
* `Spared`: what passes leave as it is, over any storage.
* `Orderly`: the invariant. `orderly_perform` is the step, `Orderly.run` the run.
* `container_perform`: **what a step does to the records.**
* `grown_run`: **a record that is not deleted grows by what is answered.**
-/

namespace RecordStore

/-! ## Passes that are cut short -/

/-- A storage during a pass that is asked to end after so many more changes. -/
structure Cutting (σ : Type) where
  storage : σ
  changes : Nat

instance {σ : Type} [Storage σ] : Storage (Cutting σ) where
  name s := Storage.name s.storage
  retains s := Storage.retains s.storage
  write r s := (Storage.write r s.storage).within fun storage => ⟨storage, s.changes - 1⟩
  read key s := (Storage.read key s.storage).within fun storage => ⟨storage, s.changes⟩
  delete key s := (Storage.delete key s.storage).within fun storage => ⟨storage, s.changes - 1⟩
  load s := (Storage.load s.storage).within fun storage => ⟨storage, s.changes⟩
  keys s := (Storage.keys s.storage).within fun storage => ⟨storage, s.changes⟩
  flush s := (Storage.flush s.storage).within fun storage => ⟨storage, s.changes⟩
  cancelled s := s.changes = 0

/-- What passes keep, passes that are cut short keep. -/
theorem Pass.Invariant.cutting {σ : Type} [Storage σ] {P : σ → Prop} (h : Pass.Invariant P) :
    Pass.Invariant fun s : Cutting σ => P s.storage where
  keys s := h.keys s.storage
  delete key s := h.delete key s.storage
  write r s := h.write r s.storage
  flush s := h.flush s.storage

/-! ## Steps and runs -/

/-- The storages that a server may be given: any log that was opened on some bytes and used for a
while, any tables, any memory whose records stand under their own keys, and none. -/
inductive Backing.Given : Backing → Prop
  | log (content : ByteArray) (steps : List (Moment × LogStep)) (m : Moment) :
    Given (log (((LogStore.recover content).1.run steps).during m))
  | tables (s : TableStore) : Given (tables s)
  | memory (s : MemoryStore) (keyed : Keyed s.records) : Given (memory s)
  | discard (s : DiscardStore) : Given (discard s)

theorem Backing.Given.inOrder {b : Backing} (h : b.Given) : b.InOrder := by
  cases h with
  | log content steps m => exact ((LogStore.sound_recover content).run steps).during m
  | tables s => trivial
  | memory s hs => exact hs
  | discard s => trivial

/-- What can be done with a server. -/
inductive ServerStep where
  | start
  | stop
  | syncNow
  | request (request : Request)
  /-- Let time go by, with the passes that come due. -/
  | wait (milliseconds : Nat)
  /-- A pass comes due and is asked to end after so many changes, for the server is to stop. -/
  | cutPass (changes : Nat)

namespace Server

/-- A new server over a storage. -/
def create (kind : Kind) (period : Nat) (storage : Backing) : Server Backing :=
  { storage, kind, period }

/-- The server at a moment. -/
def during (m : Moment) (s : Server Backing) : Server Backing :=
  { s with storage := s.storage.during m }

/-- A pass that comes due and may be cut short. -/
def cutPass (changes : Nat) (s : Server Backing) : Server Backing :=
  if s.uptime.isSome then
    let cutting : Server (Cutting Backing) := { s with storage := ⟨s.storage, changes⟩ }
    let after := cutting.periodicPass.1
    { after with storage := after.storage.storage }
  else s

/-- Does a step. -/
def perform (step : ServerStep) (s : Server Backing) : Server Backing :=
  match step with
  | .start => s.start.state
  | .stop => s.stop.state
  | .syncNow => s.syncNow.state
  | .request request => (s.handle request).state
  | .wait milliseconds => (s.advance milliseconds).1
  | .cutPass changes => s.cutPass changes

/-- The request that a step answers, if it does. -/
def replies (step : ServerStep) (s : Server Backing) : Transcript :=
  match step with
  | .request request =>
    match (s.handle request).result with
    | .ok reply => [(request, reply)]
    | .error _ => []
  | _ => []

/-- The server after some steps, each at its moment. A step that fails is one, too. -/
def run (steps : List (Moment × ServerStep)) (s : Server Backing) : Server Backing :=
  steps.foldl (fun s step => perform step.2 (s.during step.1)) s

/-- The requests that are answered in some steps. -/
def answered : List (Moment × ServerStep) → Server Backing → Transcript
  | [], _ => []
  | (m, step) :: steps, s =>
    replies step (s.during m) ++ answered steps (perform step (s.during m))

@[simp]
theorem run_nil (s : Server Backing) : run [] s = s := rfl

theorem run_append (steps more : List (Moment × ServerStep)) (s : Server Backing) :
    run (steps ++ more) s = run more (run steps s) :=
  List.foldl_append

theorem answered_append (steps more : List (Moment × ServerStep)) (s : Server Backing) :
    answered (steps ++ more) s = answered steps s ++ answered more (run steps s) := by
  induction steps generalizing s with
  | nil => rfl
  | cons step steps ih =>
    rw [List.cons_append, answered, answered, ih, List.append_assoc]
    rfl

/-! ## What each step is -/

section Steps

variable {σ : Type} [Storage σ]

/-- The ends that a start can have. -/
inductive Starts (s : Server σ) (o : Outcome (Server σ) Unit) : Prop
  /-- It was not the time to start. -/
  | refused (e : StoreError) (result_eq : o.result = .error e) (state_eq : o.state = s)
    (unknown_ne : s.state ≠ .unknown) (stopped_ne : s.state ≠ .stopped)
  /-- There is nothing to load. -/
  | kept (retains_eq : Storage.retains s.storage = false) (result_eq : o.result = .ok ())
    (state_eq : o.state = { s with state := .running, uptime := some 0 })
    (source : s.state = .unknown ∨ s.state = .stopped)
  /-- What is stored was loaded. -/
  | loaded (stored : List Snapshot) (count : Nat) (retains_eq : Storage.retains s.storage = true)
    (load_eq : (Storage.load s.storage).result = .ok stored)
    (count_eq : ((∅ : Container).load stored).1 = .ok count) (result_eq : o.result = .ok ())
    (state_eq : o.state = { s with
      container := ((∅ : Container).load stored).2, storage := (Storage.load s.storage).state,
      state := .running, uptime := some 0 })
    (source : s.state = .unknown ∨ s.state = .stopped)
  /-- Something could not be loaded. -/
  | failed (e : StoreError) (container : Container)
    (retains_eq : Storage.retains s.storage = true)
    (load_ne : ∀ stored count, (Storage.load s.storage).result = .ok stored →
      ((∅ : Container).load stored).1 ≠ .ok count)
    (container_eq : container = s.container ∨
      ∃ stored, container = ((∅ : Container).load stored).2)
    (result_eq : o.result = .error e)
    (state_eq : o.state = { s with
      container, storage := (Storage.load s.storage).state, state := .error })
    (source : s.state = .unknown ∨ s.state = .stopped)

/-- **Every start ends in one of these ways.** -/
theorem starts_start (s : Server σ) : Starts s s.start := by
  have hmove : (∃ e, Lifecycle.moveFromAny [.unknown, .stopped] .starting s.state = .error e ∧
        s.state ≠ .unknown ∧ s.state ≠ .stopped) ∨
      Lifecycle.moveFromAny [.unknown, .stopped] .starting s.state = .ok .starting ∧
        (s.state = .unknown ∨ s.state = .stopped) := by
    cases s.state <;> simp [Lifecycle.moveFromAny, Lifecycle.move, Lifecycle.canBecome]
  rcases hmove with ⟨e, hm, hu, hs⟩ | ⟨hm, hs⟩
  · exact .refused e (by rw [start, hm]; rfl) (by rw [start, hm]; rfl) hu hs
  · rw [start, hm]
    dsimp only
    cases hr : Storage.retains s.storage with
    | false =>
      have hl : load { s with state := .starting } = .ok () { s with state := .starting } := by
        rw [load, if_neg (by rw [hr]; decide)]
      rw [hl]
      exact .kept hr rfl rfl hs
    | true =>
      cases hload : (Storage.load s.storage).result with
      | error e =>
        have hl : load { s with state := .starting } = ⟨.error e,
            { s with state := .starting, storage := (Storage.load s.storage).state },
            (Storage.load s.storage).events⟩ := by
          rw [load, if_pos hr]
          simp only [hload]
        rw [hl]
        refine .failed e s.container hr (fun stored count h => ?_) (.inl rfl) rfl rfl hs
        rw [hload] at h
        cases h
      | ok stored =>
        have hl : load { s with state := .starting } =
            ⟨((∅ : Container).load stored).1.map fun _ => (),
              { s with
                state := .starting
                container := ((∅ : Container).load stored).2
                storage := (Storage.load s.storage).state },
              (Storage.load s.storage).events⟩ := by
          rw [load, if_pos hr]
          simp only [hload]
        rw [hl]
        cases hc : ((∅ : Container).load stored).1 with
        | error e =>
          refine .failed e _ hr (fun stored' count h => ?_) (.inr ⟨stored, rfl⟩) rfl rfl hs
          rw [hload] at h
          cases h
          rw [hc]
          intro hok
          cases hok
        | ok count => exact .loaded stored count hr hload hc rfl rfl hs

theorem stop_cases (s : Server σ) :
    (s.state ≠ .running ∧ s.stop = .fail (.invalidTransition s.state .stopping) s) ∨
    s.state = .running ∧
      ((∃ report, (pass s.container.snapshots s.storage).result = .ok report ∧
        s.stop.result = .ok report ∧ s.stop.state = { s with
          storage := (pass s.container.snapshots s.storage).state, state := .stopped,
          uptime := none }) ∨
      ∃ e, (pass s.container.snapshots s.storage).result = .error e ∧
        s.stop.result = .error e ∧ s.stop.state = { s with
          storage := (pass s.container.snapshots s.storage).state, state := .error,
          uptime := none }) := by
  by_cases hs : s.state = .running
  · have hb : s.beginStop = .ok { s with state := .stopping, uptime := none } := by
      rw [beginStop, hs]
      rfl
    refine .inr ⟨hs, ?_⟩
    rw [stop, hb]
    cases hp : (pass s.container.snapshots s.storage).result with
    | ok report =>
      refine .inl ⟨report, rfl, ?_⟩
      simp only [finishStop, runPass, Outcome.within, hp, and_self]
    | error e =>
      refine .inr ⟨e, rfl, ?_⟩
      simp only [finishStop, runPass, Outcome.within, hp, and_self]
  · refine .inl ⟨hs, ?_⟩
    have hm : Lifecycle.move .running .stopping s.state =
        .error (.invalidTransition s.state .stopping) := by
      simp [Lifecycle.move, Lifecycle.canBecome, hs]
    rw [stop, beginStop, hm]
    rfl

omit [Storage σ] in
theorem checkRunning_of_running {s : Server σ} (hs : s.state = .running) :
    s.checkRunning = .ok () :=
  if_pos hs

omit [Storage σ] in
theorem checkRunning_of_not_running {s : Server σ} (hs : s.state ≠ .running) :
    s.checkRunning = .error (.notRunning s.state) :=
  if_neg hs

omit [Storage σ] in
theorem handle_of_running {s : Server σ} (hs : s.state = .running) (request : Request) :
    (s.handle request).result = (s.container.answer request).1 ∧
      (s.handle request).state = { s with container := (s.container.answer request).2 } := by
  rcases s.container.answer_cases request with ⟨e, he⟩ | ⟨reply, after, he, -⟩
  · rw [handle, checkRunning_of_running hs, he]
    exact ⟨rfl, rfl⟩
  · rw [handle, checkRunning_of_running hs, he]
    exact ⟨rfl, rfl⟩

omit [Storage σ] in
theorem handle_of_not_running {s : Server σ} (hs : s.state ≠ .running) (request : Request) :
    s.handle request = .fail (.notRunning s.state) s := by
  rw [handle, checkRunning_of_not_running hs]

/-- A pass that comes due changes the storage, and may be the last. -/
theorem exists_periodicPass_eq (s : Server σ) :
    ∃ uptime, (s.uptime = none → uptime = none) ∧ s.periodicPass.1 =
      { s with storage := (pass s.container.snapshots s.storage).state, uptime } := by
  unfold periodicPass
  dsimp only
  split
  · exact ⟨s.uptime, id, rfl⟩
  · exact ⟨none, fun _ => rfl, rfl⟩
  · exact ⟨s.uptime, id, rfl⟩

/-- Where no pass comes due, time changes nothing. -/
theorem advance_of_uptime {s : Server σ} (h : s.uptime = none) (milliseconds : Nat) :
    (s.advance milliseconds).1 = s := by
  have hd : s.passesDue milliseconds = 0 := by rw [passesDue, h]
  rw [advance, hd, periodicPasses]
  cases s
  subst h
  rfl

end Steps

/-! ## Passes only read the records -/

section Spared

variable {σ : Type} [Storage σ] {P : σ → Prop}

/-- What passes leave as it is: the records and the state. Of the storage they keep something. -/
structure Spared (P : σ → Prop) (s t : Server σ) : Prop where
  container_eq : t.container = s.container
  state_eq : t.state = s.state
  keeps : P s.storage → P t.storage

namespace Spared

omit [Storage σ] in
theorem refl (s : Server σ) : Spared P s s := ⟨rfl, rfl, id⟩

omit [Storage σ] in
theorem trans {s t u : Server σ} (h : Spared P s t) (h' : Spared P t u) : Spared P s u :=
  ⟨h'.container_eq.trans h.container_eq, h'.state_eq.trans h.state_eq, h'.keeps ∘ h.keeps⟩

variable (h : Pass.Invariant P)
include h

theorem runPass (s : Server σ) : Spared P s s.runPass.state := ⟨rfl, rfl, h.pass _⟩

theorem syncNow (s : Server σ) : Spared P s s.syncNow.state := by
  unfold Server.syncNow
  split
  · exact refl s
  · exact runPass h s

theorem periodicPass (s : Server σ) : Spared P s s.periodicPass.1 := by
  obtain ⟨uptime, -, hp⟩ := s.exists_periodicPass_eq
  rw [hp]
  exact ⟨rfl, rfl, h.pass _⟩

theorem periodicPasses (n : Nat) (s : Server σ) : Spared P s (s.periodicPasses n).1 := by
  induction n generalizing s with
  | zero => exact refl s
  | succ n ih =>
    rw [Server.periodicPasses]
    split
    · exact (periodicPass h s).trans (ih _)
    · exact refl s

theorem advance (milliseconds : Nat) (s : Server σ) : Spared P s (s.advance milliseconds).1 := by
  have hp := periodicPasses h (s.passesDue milliseconds) s
  exact ⟨hp.container_eq, hp.state_eq, hp.keeps⟩

end Spared

end Spared

/-- What passes leave as it is over a storage of any kind. -/
structure Unmoved (s t : Server Backing) : Prop where
  container_eq : t.container = s.container
  state_eq : t.state = s.state
  kind_eq : t.storage.kind = s.storage.kind
  inOrder : s.storage.InOrder → t.storage.InOrder

variable {s t : Server Backing}

namespace Unmoved

theorem of_spared (hk : Spared (·.kind = s.storage.kind) s t) (ho : Spared Backing.InOrder s t) :
    Unmoved s t :=
  ⟨hk.container_eq, hk.state_eq, hk.keeps rfl, ho.keeps⟩

theorem syncNow (s : Server Backing) : Unmoved s s.syncNow.state :=
  of_spared (.syncNow (Backing.invariant_kind _) s) (.syncNow Backing.invariant_inOrder s)

theorem advance (milliseconds : Nat) (s : Server Backing) :
    Unmoved s (s.advance milliseconds).1 :=
  of_spared (.advance (Backing.invariant_kind _) milliseconds s)
    (.advance Backing.invariant_inOrder milliseconds s)

/-- A pass that is cut short keeps a storage in order like any other. -/
theorem cutPass (changes : Nat) (s : Server Backing) : Unmoved s (s.cutPass changes) := by
  unfold Server.cutPass
  split
  · let cutting : Server (Cutting Backing) := { s with storage := ⟨s.storage, changes⟩ }
    have hk := Spared.periodicPass (Backing.invariant_kind s.storage.kind).cutting cutting
    have ho := Spared.periodicPass Backing.invariant_inOrder.cutting cutting
    exact ⟨hk.container_eq, hk.state_eq, hk.keeps rfl, ho.keeps⟩
  · exact ⟨rfl, rfl, rfl, id⟩

end Unmoved

/-! ## The invariant -/

/-- Where a server is between two steps. -/
inductive Phase (s : Server Backing) : Prop
  /-- It was never started, and holds nothing. -/
  | fresh (state_eq : s.state = .unknown) (container_eq : s.container = ∅)
    (uptime_eq : s.uptime = none)
  | running (state_eq : s.state = .running)
  /-- It was stopped, and what it holds is stored if anything is. -/
  | stopped (state_eq : s.state = .stopped) (uptime_eq : s.uptime = none)
    (mirrors : Storage.retains s.storage = true → s.storage.Mirrors s.container.stored)
  | failed (state_eq : s.state = .error) (uptime_eq : s.uptime = none)

/-- **The invariant**: the records stand under their keys, the storage is in order, and both go
together while the server is stopped. -/
structure Orderly (s : Server Backing) : Prop where
  coherent : s.container.Coherent
  inOrder : s.storage.InOrder
  phase : Phase s

theorem orderly_create (kind : Kind) (period : Nat) {b : Backing} (hb : b.InOrder) :
    (create kind period b).Orderly :=
  ⟨.empty, hb, .fresh rfl rfl rfl⟩

namespace Orderly

theorem during (h : s.Orderly) (m : Moment) : (s.during m).Orderly := by
  refine ⟨h.coherent, h.inOrder.during m, ?_⟩
  cases h.phase with
  | fresh hs hc hu => exact .fresh hs hc hu
  | running hs => exact .running hs
  | stopped hs hu hm =>
    refine .stopped hs hu fun hr => (hm ?_).during m
    rwa [← Backing.retains_congr (Backing.kind_during m _)]
  | failed hs hu => exact .failed hs hu

/-- A server that was never started holds nothing. -/
theorem container_eq (h : s.Orderly) (hs : s.state = .unknown) : s.container = ∅ := by
  cases h.phase with
  | fresh _ hc => exact hc
  | running h' => simp [hs] at h'
  | stopped h' => simp [hs] at h'
  | failed h' => simp [hs] at h'

/-- Passes come due only while the server runs. -/
theorem running_of_uptime (h : s.Orderly) (hu : s.uptime ≠ none) : s.state = .running := by
  cases h.phase with
  | fresh _ _ hn => exact absurd hn hu
  | running hs => exact hs
  | stopped _ hn _ => exact absurd hn hu
  | failed _ hn => exact absurd hn hu

theorem uptime_eq (h : s.Orderly) (hs : s.state ≠ .running) : s.uptime = none := by
  by_contra hu
  exact hs (h.running_of_uptime hu)

/-- A running server stays orderly when it makes passes. -/
theorem unmoved (h : s.Orderly) (hs : s.state = .running) (ht : Unmoved s t) : t.Orderly := by
  refine ⟨?_, ht.inOrder h.inOrder, .running (ht.state_eq.trans hs)⟩
  rw [ht.container_eq]
  exact h.coherent

theorem start (h : s.Orderly) : s.start.state.Orderly := by
  cases s.starts_start with
  | refused _ _ ht =>
    rw [ht]
    exact h
  | kept _ _ ht =>
    rw [ht]
    exact ⟨h.coherent, h.inOrder, .running rfl⟩
  | loaded stored _ _ _ _ _ ht =>
    rw [ht]
    exact ⟨Container.Coherent.empty.load stored, h.inOrder.load, .running rfl⟩
  | failed e container _ _ hc _ ht hs =>
    have hu : s.uptime = none := by
      refine h.uptime_eq fun hr => ?_
      rw [hr] at hs
      rcases hs with hs | hs <;> cases hs
    rw [ht]
    refine ⟨?_, h.inOrder.load, .failed rfl hu⟩
    rcases hc with rfl | ⟨stored, rfl⟩
    · exact h.coherent
    · exact Container.Coherent.empty.load stored

theorem stop (h : s.Orderly) : s.stop.state.Orderly := by
  rcases s.stop_cases with ⟨-, ht⟩ | ⟨-, ⟨report, hp, -, ht⟩ | ⟨e, -, -, ht⟩⟩
  · rw [ht]
    exact h
  · rw [ht]
    refine ⟨h.coherent, Backing.invariant_inOrder.pass _ h.inOrder, .stopped rfl rfl fun hr => ?_⟩
    rw [s.container.snapshots_eq] at hp hr ⊢
    refine Backing.mirrors_pass ?_ h.coherent.keyed hp
    rwa [← Backing.retains_congr ((Backing.invariant_kind _).pass _ rfl)]
  · rw [ht]
    exact ⟨h.coherent, Backing.invariant_inOrder.pass _ h.inOrder, .failed rfl rfl⟩

theorem handle (h : s.Orderly) (request : Request) : (s.handle request).state.Orderly := by
  by_cases hs : s.state = .running
  · rw [(handle_of_running hs request).2]
    exact ⟨h.coherent.answer request, h.inOrder, .running hs⟩
  · rw [handle_of_not_running hs]
    exact h

/-- **Every step keeps the invariant.** -/
theorem perform (h : s.Orderly) (step : ServerStep) : (s.perform step).Orderly := by
  cases step with
  | start => exact h.start
  | stop => exact h.stop
  | syncNow =>
    by_cases hs : s.state = .running
    · exact h.unmoved hs (.syncNow s)
    · rw [Server.perform, syncNow, checkRunning_of_not_running hs]
      exact h
  | request request => exact h.handle request
  | wait milliseconds =>
    by_cases hs : s.state = .running
    · exact h.unmoved hs (.advance milliseconds s)
    · rw [Server.perform, advance_of_uptime (h.uptime_eq hs)]
      exact h
  | cutPass changes =>
    by_cases hs : s.state = .running
    · exact h.unmoved hs (.cutPass changes s)
    · rw [Server.perform, cutPass, h.uptime_eq hs]
      exact h

/-- **The invariant holds after any steps.** -/
theorem run (h : s.Orderly) (steps : List (Moment × ServerStep)) : (s.run steps).Orderly := by
  induction steps generalizing s with
  | nil => exact h
  | cons step steps ih => exact ih ((h.during step.1).perform step.2)

end Orderly

/-- A server stays over the kind of storage that it was made with. -/
theorem kind_perform (step : ServerStep) (s : Server Backing) :
    (s.perform step).storage.kind = s.storage.kind := by
  cases step with
  | start =>
    rw [perform]
    cases s.starts_start with
    | refused _ _ ht => rw [ht]
    | kept _ _ ht => rw [ht]
    | loaded _ _ _ _ _ _ ht =>
      rw [ht]
      exact Backing.kind_on Storage.load s.storage
    | failed _ _ _ _ _ _ ht =>
      rw [ht]
      exact Backing.kind_on Storage.load s.storage
  | stop =>
    rw [perform]
    rcases s.stop_cases with ⟨-, ht⟩ | ⟨-, ⟨report, -, -, ht⟩ | ⟨e, -, -, ht⟩⟩
    · rw [ht]
      rfl
    · rw [ht]
      exact (Backing.invariant_kind _).pass _ rfl
    · rw [ht]
      exact (Backing.invariant_kind _).pass _ rfl
  | syncNow => exact (Unmoved.syncNow s).kind_eq
  | request request =>
    rw [perform]
    by_cases hs : s.state = .running
    · rw [(handle_of_running hs request).2]
    · rw [handle_of_not_running hs]
      rfl
  | wait milliseconds => exact (Unmoved.advance milliseconds s).kind_eq
  | cutPass changes => exact (Unmoved.cutPass changes s).kind_eq

theorem kind_run (steps : List (Moment × ServerStep)) (s : Server Backing) :
    (s.run steps).storage.kind = s.storage.kind := by
  induction steps generalizing s with
  | nil => rfl
  | cons step steps ih =>
    have h := kind_perform step.2 (s.during step.1)
    exact (ih _).trans (h.trans (Backing.kind_during step.1 s.storage))

/-! ## What becomes of the records -/

/-- Only starting and stopping lead from one state to another. -/
theorem state_perform_cases (step : ServerStep) (s : Server Backing) :
    (s.perform step).state = s.state ∨
    step = .start ∧ (s.state = .unknown ∨ s.state = .stopped) ∧
      ((s.perform step).state = .running ∨ (s.perform step).state = .error) ∨
    step = .stop ∧ s.state = .running ∧
      ((s.perform step).state = .stopped ∨ (s.perform step).state = .error) := by
  cases step with
  | start =>
    rw [perform]
    cases s.starts_start with
    | refused _ _ ht => exact .inl (congrArg state ht)
    | kept _ _ ht hs => exact .inr (.inl ⟨rfl, hs, .inl (congrArg state ht)⟩)
    | loaded _ _ _ _ _ _ ht hs => exact .inr (.inl ⟨rfl, hs, .inl (congrArg state ht)⟩)
    | failed _ _ _ _ _ _ ht hs => exact .inr (.inl ⟨rfl, hs, .inr (congrArg state ht)⟩)
  | stop =>
    rw [perform]
    rcases s.stop_cases with ⟨-, ht⟩ | ⟨hs, ⟨report, -, -, ht⟩ | ⟨e, -, -, ht⟩⟩
    · exact .inl (congrArg (fun o => o.state.state) ht)
    · exact .inr (.inr ⟨rfl, hs, .inl (congrArg state ht)⟩)
    · exact .inr (.inr ⟨rfl, hs, .inr (congrArg state ht)⟩)
  | syncNow => exact .inl (Unmoved.syncNow s).state_eq
  | request request =>
    rw [perform]
    by_cases hs : s.state = .running
    · exact .inl (by rw [(handle_of_running hs request).2])
    · exact .inl (congrArg (fun o => o.state.state) (handle_of_not_running hs request))
  | wait milliseconds => exact .inl (Unmoved.advance milliseconds s).state_eq
  | cutPass changes => exact .inl (Unmoved.cutPass changes s).state_eq

/-- A server that failed stays so. -/
theorem state_perform_of_error (hs : s.state = .error) (step : ServerStep) :
    (s.perform step).state = .error := by
  rcases state_perform_cases step s with h | ⟨-, h | h, -⟩ | ⟨-, h, -⟩
  · rw [h, hs]
  all_goals
    rw [hs] at h
    cases h

/-- A server is unknown only before its first start. -/
theorem state_perform_ne_unknown (hs : s.state ≠ .unknown) (step : ServerStep) :
    (s.perform step).state ≠ .unknown := by
  rcases state_perform_cases step s with h | ⟨-, -, h | h⟩ | ⟨-, -, h | h⟩
  · rwa [h]
  all_goals
    rw [h]
    decide

/-- A stopped server loads what it holds. -/
theorem container_start (h : s.Orderly) (hs : s.state ≠ .unknown) :
    s.start.state.container = s.container := by
  have hmirrors : s.state = .stopped → Storage.retains s.storage = true →
      (Storage.load s.storage).result = .ok s.container.stored.values := by
    intro hs hr
    cases h.phase with
    | fresh h' => simp [hs] at h'
    | running h' => simp [hs] at h'
    | stopped _ _ hm => exact ((hm hr).load h.coherent.keyed h.coherent.values_ne_nil).1
    | failed h' => simp [hs] at h'
  obtain ⟨hcount, hcontainer⟩ := h.coherent.load_stored
  cases s.starts_start with
  | refused _ _ ht => rw [ht]
  | kept _ _ ht => rw [ht]
  | loaded stored _ hr hl _ _ ht hsource =>
    have hl' := hmirrors (hsource.resolve_left hs) hr
    rw [hl] at hl'
    cases hl'
    rw [ht]
    exact hcontainer
  | failed _ _ hr hne _ _ _ hsource =>
    exact absurd hcount (hne _ _ (hmirrors (hsource.resolve_left hs) hr))

/-- **What a step does to the records** of a server, the first start apart: it answers a request, or
it leaves them as they are. -/
theorem container_perform (h : s.Orderly) (step : ServerStep)
    (hs : step = .start → s.state ≠ .unknown) :
    (∃ request reply, step = .request request ∧ (s.handle request).result = .ok reply ∧
      Container.Answered s.container request reply (s.perform step).container) ∨
    replies step s = [] ∧ (s.perform step).container = s.container := by
  cases step with
  | start => exact .inr ⟨rfl, container_start h (hs rfl)⟩
  | stop =>
    refine .inr ⟨rfl, ?_⟩
    rcases s.stop_cases with ⟨-, ht⟩ | ⟨-, ⟨report, -, -, ht⟩ | ⟨e, -, -, ht⟩⟩
    · exact congrArg (fun o => o.state.container) ht
    · rw [perform, ht]
    · rw [perform, ht]
  | syncNow => exact .inr ⟨rfl, (Unmoved.syncNow s).container_eq⟩
  | request request =>
    by_cases hr : s.state = .running
    · obtain ⟨hresult, hstate⟩ := handle_of_running hr request
      rw [perform, hstate]
      cases ha : (s.container.answer request).1 with
      | ok reply =>
        exact .inl ⟨request, reply, rfl, hresult.trans ha, Container.answered_of_ok ha⟩
      | error e =>
        refine .inr ⟨?_, Container.answer_of_error ha⟩
        rw [replies, hresult, ha]
    · rw [perform, replies, handle_of_not_running hr]
      exact .inr ⟨rfl, rfl⟩
  | wait milliseconds => exact .inr ⟨rfl, (Unmoved.advance milliseconds s).container_eq⟩
  | cutPass changes => exact .inr ⟨rfl, (Unmoved.cutPass changes s).container_eq⟩

theorem replies_of_ok {request : Request} {reply : Reply}
    (h : (s.handle request).result = .ok reply) :
    replies (.request request) s = [(request, reply)] := by
  rw [replies, h]

/-- **A record that is not deleted grows by what is answered**, whatever else is done. -/
theorem grown_run (h : s.Orderly) (hs : s.state ≠ .unknown) {key : String} {r : Record}
    (hr : s.container.get? key = some r) (steps : List (Moment × ServerStep))
    (hk : Transcript.Keeps key (s.answered steps)) :
    ∃ r', (s.run steps).container.get? key = some r' ∧ Grown key (s.answered steps) r r' := by
  induction steps generalizing s r with
  | nil => exact ⟨r, hr, .refl key r⟩
  | cons step steps ih =>
    obtain ⟨m, step⟩ := step
    rw [answered] at hk ⊢
    obtain ⟨hk, hks⟩ := List.forall_mem_append.mp hk
    have hnext := (h.during m).perform step
    have hs' := state_perform_ne_unknown (s := s.during m) hs step
    rcases container_perform (h.during m) step fun _ => hs with
      ⟨request, reply, rfl, hok, ha⟩ | ⟨hl, hc⟩
    · rw [replies_of_ok hok] at hk ⊢
      obtain ⟨r₁, hr₁, hg₁⟩ := Container.grown_answered ha hr (hk _ List.mem_cons_self)
      obtain ⟨r₂, hr₂, hg₂⟩ := ih hnext hs' hr₁ hks
      exact ⟨r₂, hr₂, hg₁.trans hg₂⟩
    · rw [hl, List.nil_append]
      exact ih hnext hs' (hc ▸ hr) hks

end Server

end RecordStore
