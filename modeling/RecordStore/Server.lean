import RecordStore.Lifecycle.Transition
import RecordStore.Pass
import RecordStore.Request
import RecordStore.Storage.Kind

/-!
# Servers

A server holds the records in memory and keeps them in a storage. It answers requests only while it
runs. Starting loads what is stored, stopping writes everything back, and in between a pass comes
due whenever a whole period has gone by since the start.

Model of `KvServer`, sections 5 and 14 of the specification: `start`, `stop` and `syncNow` are its
`start`, `stop` and `sync_now`, `handle` is any request with `enter` and `observe` around it,
`runPass` is `run_pass`, and `advance` is the task of `spawn_sync_task` under a clock that only moves
when it is told to.

* `start`, `stop` (made of `beginStop` and `finishStop`), `syncNow` and `handle` are what can be
  asked of it.
* `advance` lets time go by.
* A storage that retains nothing is not loaded from, so the records stay over a restart.
* With a period of zero no pass ever comes due, which is only noted when the server stops.
-/

namespace RecordStore

/-- A server over a storage. -/
structure Server (σ : Type) where
  /-- The records. -/
  container : Container := ∅
  /-- Where they are kept. -/
  storage : σ
  /-- Where it is in its life. -/
  state : Lifecycle := .unknown
  /-- The kind of storage it was configured for. -/
  kind : Kind
  /-- The time between passes, in milliseconds. -/
  period : Nat
  /-- The time since passes began to come due, as long as they do. -/
  uptime : Option Nat := none

namespace Server

variable {σ : Type} [Storage σ]

/-- A pass over the records as they are. -/
def runPass (s : Server σ) : Outcome (Server σ) PassReport :=
  (pass s.container.snapshots s.storage).within fun storage => { s with storage }

/-- Takes the stored records in place of those in memory, if the storage retains any. -/
def load (s : Server σ) : Outcome (Server σ) Unit :=
  if Storage.retains s.storage then
    let o := Storage.load s.storage
    match o.result with
    | .error e => ⟨.error e, { s with storage := o.state }, o.events⟩
    | .ok stored =>
      let (count, container) := (∅ : Container).load stored
      ⟨count.map fun _ => (), { s with container, storage := o.state }, o.events⟩
  else .ok () s

/-- Loads and begins to run. -/
def start (s : Server σ) : Outcome (Server σ) Unit :=
  match Lifecycle.moveFromAny [.unknown, .stopped] .starting s.state with
  | .error e => .fail e s
  | .ok state =>
    let o := { s with state }.load
    match o.result with
    | .error e =>
      ⟨.error e, { o.state with state := .error }, o.events ++ [.loadFailed]⟩
    | .ok () =>
      ⟨.ok (), { o.state with state := .running, uptime := some 0 }, o.events⟩

/-- Refuses requests from now on. -/
def beginStop (s : Server σ) : Except StoreError (Server σ) :=
  (Lifecycle.move .running .stopping s.state).map fun state => { s with state, uptime := none }

/-- What is noted about the passes that should have come due. -/
def timerEvents (s : Server σ) : List Event := if s.period = 0 then [.timerBroken] else []

/-- Writes everything back and ends. -/
def finishStop (s : Server σ) : Outcome (Server σ) PassReport :=
  let o := s.runPass
  let events := s.timerEvents ++ o.events
  match o.result with
  | .ok _ => { o with state := { o.state with state := .stopped }, events }
  | .error _ =>
    { o with state := { o.state with state := .error }, events := events ++ [.finalPassFailed] }

/-- Stops running. -/
def stop (s : Server σ) : Outcome (Server σ) PassReport :=
  match s.beginStop with
  | .error e => .fail e s
  | .ok s => s.finishStop

/-- Whether requests are answered. -/
def checkRunning (s : Server σ) : Except StoreError Unit :=
  if s.state = .running then .ok () else .error (.notRunning s.state)

/-- A pass on demand. -/
def syncNow (s : Server σ) : Outcome (Server σ) PassReport :=
  match s.checkRunning with
  | .error e => .fail e s
  | .ok () => s.runPass

/-- Answers a request, if the server runs. -/
def handle (request : Request) (s : Server σ) : Outcome (Server σ) Reply :=
  match s.checkRunning with
  | .error e => .fail e s
  | .ok () =>
    match s.container.answer request with
    | (.ok reply, container) => .ok reply { s with container }
    | (.error e, container) => ⟨.error e, { s with container }, [e.event]⟩

/-- A pass that comes due. One that is cancelled is the last. -/
def periodicPass (s : Server σ) : Server σ × List Event :=
  let o := s.runPass
  match o.result with
  | .ok _ => (o.state, o.events)
  | .error (.passCancelled ..) => ({ o.state with uptime := none }, o.events)
  | .error _ => (o.state, o.events ++ [.periodicPassFailed])

/-- So many passes that come due, as long as they do. -/
def periodicPasses : Nat → Server σ → Server σ × List Event
  | 0, s => (s, [])
  | n + 1, s =>
    if s.uptime.isSome then
      let (s, events) := s.periodicPass
      let (s, more) := periodicPasses n s
      (s, events ++ more)
    else (s, [])

/-- How many passes come due while time goes by. -/
def passesDue (s : Server σ) (milliseconds : Nat) : Nat :=
  match s.uptime with
  | some t => (t + milliseconds) / s.period - t / s.period
  | none => 0

/-- Lets time go by. -/
def advance (milliseconds : Nat) (s : Server σ) : Server σ × List Event :=
  let (s, events) := periodicPasses (s.passesDue milliseconds) s
  ({ s with uptime := s.uptime.map (· + milliseconds) }, events)

/-- The time until a pass comes due. -/
def untilNextPass (s : Server σ) : Option Nat :=
  s.uptime.map fun t => s.period - t % s.period

end Server

end RecordStore
