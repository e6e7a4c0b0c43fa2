import RecordStore.Proofs.Anonymous
import RecordStore.Proofs.Server.Restart
import RecordStore.Proofs.Storage.Foretold

/-!
# Passes are not seen

A running server answers from its records, and its records change with the requests. Passes read
them and change the storage. They may come at any time, and each may fail at any of its operations
or be cut short, so what the storage holds between two passes can be anything in between. Neither is
seen: the answers are told by the requests, and after the last pass, when that succeeds, so is all
that the storage holds.

* `RunningStep`, `Weather`: what happens while a server runs, and what its storage meets with then.
* `requestsOf`: the requests among the steps. `answersTo`: what they are answered.
* `Runs.carryOn` is the step, `Runs.carryOnAll` the run: **the requests tell the records.**
* `Runs.load_stop`: what a storage holds when the server stops is told by the records.
* `passes_unseen`: **two runs with the same requests and any passes are answered alike, and when
  both servers stop, their storages hold the same records**, but for the ids of new ones.
-/

namespace RecordStore

/-- What happens to a server while it runs. -/
inductive RunningStep where
  | request (request : Request)
  | syncNow
  /-- A pass comes due. -/
  | periodicPass
  /-- Time goes by, with the passes that come due. -/
  | wait (milliseconds : Nat)

/-- What a storage meets with during a step: what the system lets be done with it, and what befalls
its operations one after the other. -/
structure Weather where
  moment : Moment := {}
  omens : List (Option Effect) := []

/-- The request that a step is, if it is one. -/
def RunningStep.request? : RunningStep → Option Request
  | .request asked => some asked
  | _ => none

namespace Server

/-- The requests among some steps. -/
def requestsOf (steps : List (Weather × RunningStep)) : List Request :=
  steps.filterMap fun step => step.2.request?

/-- The server in some weather. -/
def under (w : Weather) (s : Server (Foretold Backing)) : Server (Foretold Backing) :=
  { s with storage := ⟨s.storage.storage.during w.moment, w.omens⟩ }

/-- Does a step. -/
def carryOn (step : RunningStep) (s : Server (Foretold Backing)) : Server (Foretold Backing) :=
  match step with
  | .request request => (s.handle request).state
  | .syncNow => s.syncNow.state
  | .periodicPass => s.periodicPass.1
  | .wait milliseconds => (s.advance milliseconds).1

/-- The server after some steps, each in its weather. -/
def carryOnAll (steps : List (Weather × RunningStep)) (s : Server (Foretold Backing)) :
    Server (Foretold Backing) :=
  steps.foldl (fun s step => carryOn step.2 (s.under step.1)) s

/-- What the requests among some steps are answered, errors included. -/
def answersTo : List (Weather × RunningStep) → Server (Foretold Backing) →
    List (Except StoreError Reply)
  | [], _ => []
  | (w, step) :: steps, s =>
    let rest := answersTo steps (carryOn step (s.under w))
    match step with
    | .request request => ((s.under w).handle request).result :: rest
    | _ => rest

/-- That a server runs, over a storage of a kind, with these records. -/
structure Runs (kind : Kind) (c : Container) (s : Server (Foretold Backing)) : Prop where
  state_eq : s.state = .running
  kind_eq : s.storage.storage.kind = kind
  container_eq : s.container = c

variable {kind : Kind} {c : Container} {s : Server (Foretold Backing)}

namespace Runs

theorem under (h : Runs kind c s) (w : Weather) : Runs kind c (s.under w) :=
  ⟨h.state_eq, (Backing.kind_during w.moment s.storage.storage).trans h.kind_eq, h.container_eq⟩

/-- Passes change nothing of this. -/
theorem of_spared {t : Server (Foretold Backing)} (h : Runs kind c s)
    (hp : Spared (fun b : Foretold Backing => b.storage.kind = kind) s t) : Runs kind c t :=
  ⟨hp.state_eq.trans h.state_eq, hp.keeps h.kind_eq, hp.container_eq.trans h.container_eq⟩

/-- **What a step does to the records**: a request changes them as it does, and a pass does not. -/
theorem carryOn (h : Runs kind c s) (step : RunningStep) :
    Runs kind (Container.answerAll step.request?.toList c) (s.carryOn step) := by
  have hk : Pass.Invariant fun b : Foretold Backing => b.storage.kind = kind :=
    (Backing.invariant_kind kind).foretold
  cases step with
  | request request =>
    rw [Server.carryOn, (handle_of_running h.state_eq request).2]
    exact ⟨h.state_eq, h.kind_eq, by rw [h.container_eq]; rfl⟩
  | syncNow => exact h.of_spared (.syncNow hk s)
  | periodicPass => exact h.of_spared (.periodicPass hk s)
  | wait milliseconds => exact h.of_spared (.advance hk milliseconds s)

/-- **The requests tell the answers and the records.** -/
theorem carryOnAll (h : Runs kind c s) (steps : List (Weather × RunningStep)) :
    s.answersTo steps = c.answers (requestsOf steps) ∧
      Runs kind (c.answerAll (requestsOf steps)) (s.carryOnAll steps) := by
  induction steps generalizing s c with
  | nil => exact ⟨rfl, h⟩
  | cons step steps ih =>
    obtain ⟨w, step⟩ := step
    have hw := h.under w
    obtain ⟨ha, hr⟩ := ih (hw.carryOn step)
    cases step with
    | request request =>
      have hanswer := (handle_of_running hw.state_eq request).1
      rw [hw.container_eq] at hanswer
      refine ⟨?_, hr⟩
      rw [answersTo, ha, hanswer]
      rfl
    | syncNow => exact ⟨ha, hr⟩
    | periodicPass => exact ⟨ha, hr⟩
    | wait milliseconds => exact ⟨ha, hr⟩

end Runs

/-- A server that has started runs. What it has loaded stands under its keys. -/
theorem runs_start (h : s.start.result = .ok ()) :
    Runs s.storage.storage.kind s.start.state.container s.start.state ∧
      (Storage.retains s.storage = true → s.start.state.container.Coherent) := by
  cases s.starts_start with
  | refused e hr =>
    rw [hr] at h
    cases h
  | kept hretains _ ht =>
    rw [ht]
    refine ⟨⟨rfl, rfl, rfl⟩, fun hr => ?_⟩
    rw [hretains] at hr
    cases hr
  | loaded stored count _ _ _ _ ht =>
    have hk : (Storage.load s.storage).state.storage.kind = s.storage.storage.kind :=
      Foretold.call_keeps (P := fun b => b.kind = s.storage.storage.kind)
        (fun b hb => (Backing.kind_on Storage.load b).trans hb) rfl
    rw [ht]
    exact ⟨⟨rfl, hk, rfl⟩, fun _ => Container.Coherent.empty.load stored⟩
  | failed e _ _ _ _ hr =>
    rw [hr] at h
    cases h

/-- **When a server stops, its storage holds just its records**, if it retains any. -/
theorem Runs.load_stop (h : Runs kind c s) (hc : c.Coherent)
    (hretains : Storage.retains s.storage.storage = true) {report : PassReport}
    (hstop : s.stop.result = .ok report) (m : Moment) :
    (Storage.load (s.stop.state.storage.storage.during m)).result = .ok c.stored.values := by
  obtain ⟨-, hpass, hstorage⟩ := stop_eq_ok hstop
  rw [h.container_eq, c.snapshots_eq] at hpass hstorage
  obtain ⟨hinner, hstate⟩ := Foretold.through_pass c.stored.values s.storage report hpass
  have hm := Backing.mirrors_pass hretains hc.keyed hinner
  rw [hstorage, hstate]
  exact ((hm.during m).load hc.keyed hc.values_ne_nil).1

/-- **Passes are not seen.** A server has started, whatever it was before. Its two runs have the same
requests, but for the ids that new records are given, and any passes: one may be the other with more
passes anywhere between its steps. The requests are answered alike, errors included. If the server
can stop after both, a storage that retains records holds the same ones, in full. They differ in
ids at most, and not in the id of a record that was there at the start and was not deleted. -/
theorem passes_unseen (hstart : s.start.result = .ok ())
    {first second : List (Weather × RunningStep)}
    (hrequests : (requestsOf second).map Request.anonymous =
      (requestsOf first).map Request.anonymous) :
    s.start.state.answersTo second = s.start.state.answersTo first ∧
    ∀ (w w' : Weather) (report report' : PassReport),
      let t := ((s.start.state.carryOnAll first).under w).stop
      let t' := ((s.start.state.carryOnAll second).under w').stop
      Storage.retains s.storage = true → t.result = .ok report → t'.result = .ok report' →
        ∃ rs rs' : List Snapshot,
          (∀ m, (Storage.load (t.state.storage.storage.during m)).result = .ok rs) ∧
          (∀ m, (Storage.load (t'.state.storage.storage.during m)).result = .ok rs') ∧
          rs'.map Snapshot.anonymous = rs.map Snapshot.anonymous ∧
          ∀ (key : String) (r : Record), s.start.state.container.get? key = some r →
            .delete key ∉ requestsOf first → ∀ x ∈ rs ++ rs', x.key = key → x.id = r.id := by
  obtain ⟨hruns, hcoherent⟩ := runs_start hstart
  obtain ⟨ha, hr⟩ := hruns.carryOnAll first
  obtain ⟨ha', hr'⟩ := hruns.carryOnAll second
  obtain ⟨hanswers, hrecords⟩ := Container.answers_congr hrequests s.start.state.container
  refine ⟨by rw [ha, ha', hanswers], ?_⟩
  intro w w' report report' t t' hretains hstop hstop'
  -- The storages are of the kind that the server was started over.
  have hkept : ∀ {c : Container} {u : Server (Foretold Backing)},
      Runs s.storage.storage.kind c u → Storage.retains u.storage.storage = true := by
    intro c u hu
    rw [Backing.retains_congr hu.kind_eq]
    exact hretains
  have hc := (hcoherent hretains).answerAll (requestsOf first)
  have hc' := (hcoherent hretains).answerAll (requestsOf second)
  refine ⟨_, _, (hr.under w).load_stop hc (hkept (hr.under w)) hstop,
    (hr'.under w').load_stop hc' (hkept (hr'.under w')) hstop', ?_, ?_⟩
  · rw [← Container.values_stored_anonymous, ← Container.values_stored_anonymous, hrecords]
  · intro key r hkey hd x hx hxkey
    have hd' : .delete key ∉ requestsOf second := by
      rw [← Container.delete_mem_map_anonymous, hrequests, Container.delete_mem_map_anonymous]
      exact hd
    rcases List.mem_append.mp hx with hx | hx
    · exact (hcoherent hretains).id_of_mem_stored hkey hd hx hxkey
    · exact (hcoherent hretains).id_of_mem_stored hkey hd' hx hxkey

/-- One pass fails before a record is deleted, and one is cut short between this and the creation
of another. -/
theorem passes_unseen_trial :
    let old : Snapshot := { (default : Snapshot) with key := "a", values := [[0]] }
    let s : Server (Foretold Backing) :=
      { storage := ⟨.memory ⟨.ofList [("a", old)]⟩, []⟩, kind := .memory, period := 10 }
    let first : List (Weather × RunningStep) :=
      [({}, .request (.delete "a")), ({}, .request (.set "b" [1] default))]
    let second : List (Weather × RunningStep) :=
      [({ omens := [none, some (.fail .emptyKey)] }, .syncNow), ({}, .request (.delete "a")),
        ({ omens := [none, some .cancel] }, .wait 25),
        ({}, .request (.set "b" [1] ⟨List.replicate 32 1, rfl⟩))]
    let t := ((s.start.state.carryOnAll first).under {}).stop
    let t' := ((s.start.state.carryOnAll second).under {}).stop
    s.start.state.answersTo second = s.start.state.answersTo first ∧
      t.result = .ok ⟨1, 1⟩ ∧ t'.result = .ok ⟨1, 1⟩ ∧
      ∃ rs rs', (∀ m, (Storage.load (t.state.storage.storage.during m)).result = .ok rs) ∧
        (∀ m, (Storage.load (t'.state.storage.storage.during m)).result = .ok rs') ∧
        rs'.map Snapshot.anonymous = rs.map Snapshot.anonymous := by
  intro old s first second
  have hstart : s.start.result = .ok () := by decide +kernel
  have hrequests : (requestsOf second).map Request.anonymous =
      (requestsOf first).map Request.anonymous := by decide +kernel
  have hstop : ((s.start.state.carryOnAll first).under {}).stop.result = .ok ⟨1, 1⟩ := by
    decide +kernel
  have hstop' : ((s.start.state.carryOnAll second).under {}).stop.result = .ok ⟨1, 1⟩ := by
    decide +kernel
  obtain ⟨hanswers, hstored⟩ := passes_unseen hstart hrequests
  obtain ⟨rs, rs', hload, hload', hsame, -⟩ := hstored {} {} _ _ rfl hstop hstop'
  exact ⟨hanswers, hstop, hstop', rs, rs', hload, hload', hsame⟩

end Server

end RecordStore
