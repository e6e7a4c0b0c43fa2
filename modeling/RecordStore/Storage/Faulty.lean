import RecordStore.Storage.Basic

/-!
# Storage with faults

A storage that fails on schedule, for trial. A fault lets some calls of one kind pass and has its
effect on every later one: the call fails and never reaches the storage, or it is made and the pass
under way is asked to end. For one call the faults are gone through in order up to the first that
makes it fail.

* `Faulty.plan` goes through the faults for one call.
* `Faulty.call` makes a call under them. Keys and comparisons are made of loads and reads.
-/

namespace RecordStore

/-- The kinds of calls that faults tell apart. -/
inductive Call where
  | load
  | read
  | write
  | delete
  | flush
  deriving DecidableEq, Repr

/-- What a fault does. -/
inductive Effect where
  | fail (error : StoreError)
  | cancel
  deriving DecidableEq, Repr

/-- Lets `passes` calls pass and has its effect on the later ones. -/
structure Fault where
  call : Call
  passes : Nat
  effect : Effect
  deriving DecidableEq, Repr

/-- A storage under faults, and whether the pass under way is asked to end. -/
structure Faulty (σ : Type) where
  storage : σ
  faults : List Fault := []
  cancelled : Bool := false

/-- What the faults have in store for a call. -/
inductive Verdict where
  | pass (cancel : Bool)
  | fail (error : StoreError)
  deriving DecidableEq, Repr

namespace Faulty

/-- Goes through the faults for a call: what becomes of it, and the faults after it. -/
def plan (call : Call) : List Fault → Verdict × List Fault
  | [] => (.pass false, [])
  | fault :: rest =>
    let (verdict, later) := plan call rest
    if fault.call ≠ call then (verdict, fault :: later)
    else match fault.passes, fault.effect with
      | passes + 1, _ => (verdict, { fault with passes } :: later)
      | 0, .fail e => (.fail e, fault :: rest)
      | 0, .cancel =>
        match verdict with
        | .pass _ => (.pass true, fault :: later)
        | .fail e => (.fail e, fault :: later)

/-- Makes a call under the faults. -/
def call (kind : Call) (run : σ → Outcome σ α) (s : Faulty σ) : Outcome (Faulty σ) α :=
  let (verdict, faults) := plan kind s.faults
  match verdict with
  | .fail e => .fail e { s with faults }
  | .pass cancel =>
    (run s.storage).within fun storage => ⟨storage, faults, s.cancelled || cancel⟩

/-- Adds a fault behind the others. -/
def arm (fault : Fault) (s : Faulty σ) : Faulty σ := { s with faults := s.faults ++ [fault] }

/-- Removes all faults. -/
def disarm (s : Faulty σ) : Faulty σ := { s with faults := [] }

/-- Asks the pass under way to end, or no longer. -/
def setCancelled (cancelled : Bool) (s : Faulty σ) : Faulty σ := { s with cancelled }

instance [Storage σ] : Storage (Faulty σ) where
  name s := Storage.name s.storage
  retains s := Storage.retains s.storage
  write r := call .write (Storage.write r)
  read key := call .read (Storage.read key)
  delete key := call .delete (Storage.delete key)
  load := call .load Storage.load
  flush := call .flush Storage.flush
  cancelled s := s.cancelled

end Faulty

end RecordStore
