import RecordStore.Storage.Basic

/-!
# Passes

A pass makes a storage hold exactly some records: it removes every stored key that is not among
theirs, in the order in which the storage lists its keys, writes every record, and flushes. Between
two operations it looks whether it should end.

Model of `Synchronizer` and its `sync`, section 4.5 of the specification.

* `pass` ends at the first failure and undoes nothing. It then tells its part and how many deletes
  and writes were made; a storage that cannot list its keys fails the pass as a whole.
* `Pass.applyDeletes` and `Pass.writeAll` are its two parts, each a run of `Pass.each`.
-/

namespace RecordStore

/-- What a pass did. -/
structure PassReport where
  deleted : Nat
  written : Nat
  deriving DecidableEq, Repr

namespace Pass

variable {σ : Type} [Storage σ]

/-- The keys that are not those of the records. -/
def stale (records : List Snapshot) (listed : List String) : List String :=
  let live : Dict Unit := .ofList (records.map fun r => (r.key, ()))
  listed.filter fun key => !live.contains key

/-- Does something with each item in turn and counts on from `done`. Before each it looks whether
the pass should end. Both errors tell how many items were done. -/
def each (cancelled : Nat → StoreError) (failed : Nat → StoreError → StoreError)
    (act : α → σ → Outcome σ Unit) (done : Nat) : List α → σ → Outcome σ Nat
  | [], s => .ok done s
  | item :: rest, s =>
    if Storage.cancelled s then .fail (cancelled done) s
    else ((act item s).mapError (failed done)).andThen fun _ s =>
      each cancelled failed act (done + 1) rest s

/-- Removes some keys. -/
def applyDeletes (keys : List String) (s : σ) : Outcome σ Nat :=
  each (.passCancelled .applyDeletes · 0) (.passFailed .applyDeletes · 0) Storage.delete 0 keys s

/-- Writes some records after `deleted` deletes. -/
def writeAll (deleted : Nat) (records : List Snapshot) (s : σ) : Outcome σ Nat :=
  each (.passCancelled .writeAll deleted) (.passFailed .writeAll deleted) Storage.write 0 records s

/-- Flushes after everything is written. -/
def finish (deleted written : Nat) (s : σ) : Outcome σ PassReport :=
  ((Storage.flush s).mapError (.passFailed .writeAll deleted written)).map
    fun _ => ⟨deleted, written⟩

/-- Failing to list the keys is a fault of the storage, whatever it was. -/
def listError : StoreError → StoreError
  | .backend fault => .backend fault
  | e => .backend (.reported e.message)

end Pass

/-- Makes the storage hold exactly these records. -/
def pass {σ : Type} [Storage σ] (records : List Snapshot) (s : σ) : Outcome σ PassReport :=
  ((Storage.keys s).mapError Pass.listError).andThen fun listed s =>
    (Pass.applyDeletes (Pass.stale records listed) s).andThen fun deleted s =>
      (Pass.writeAll deleted records s).andThen fun written s =>
        Pass.finish deleted written s

end RecordStore
