import RecordStore.Container
import RecordStore.Event

/-!
# Requests

What clients ask of the records, and the answers. A request that fails changes nothing.

Model of the requests of `KvServer`, section 14 of the specification, with `classify` as
`StoreError.event`.

* `Request` and `Reply` are the two sides, `Container.answer` is what lies between them.
* A request that creates a record brings the id for it along.
* `StoreError.event` says how a failed request is noted.
-/

namespace RecordStore

/-- What a client asks. -/
inductive Request where
  /-- The value of a version. -/
  | get (key : String) (version : Version)
  /-- Give a key a new value; `fresh` is the id of the record if there is none yet. -/
  | set (key : String) (value : Bytes) (fresh : Id)
  /-- Remove a key and its whole history. -/
  | delete (key : String)
  | setMetadata (key name value : String)
  | getMetadata (key name : String)
  | deleteMetadata (key name : String)
  | listMetadata (key : String)
  /-- The keys that begin like this. -/
  | find (start : String)
  /-- The keys of the records that a query accepts. -/
  | findByMetadata (query : String)
  deriving DecidableEq

/-- What a client is answered. -/
inductive Reply where
  | value (bytes : Bytes)
  | version (index : Nat)
  | done
  | counter (count : Nat)
  | text (value : String)
  | metadata (entries : Dict String)
  | keys (found : List String)
  deriving DecidableEq

namespace Container

/-- The record of a key, which must be there. -/
def require (c : Container) (key : String) : Except StoreError Record := do
  checkKey key
  match c.get? key with
  | some r => return r
  | none => throw (.keyNotFound key)

/-- A change of a record that may be refused, with the counter as its answer. -/
def counted (change : Record → Except StoreError Record) (r : Record) :
    Except StoreError Reply × Record :=
  match change r with
  | .ok r => (.ok (.counter r.metadata.counter), r)
  | .error e => (.error e, r)

/-- Answers a request. -/
def answer (c : Container) : Request → Except StoreError Reply × Container
  | .get key version => ((c.require key).bind fun r => (r.get version).map .value, c)
  | .set key value fresh =>
    c.upsert key (fun _ => (Record.create fresh key value).map (·, .version 0)) fun r =>
      let r := r.update value
      (.ok (.version r.history.current), r)
  | .delete key =>
    match c.require key with
    | .ok _ => (.ok .done, c.erase key)
    | .error e => (.error e, c)
  | .setMetadata key name value => c.update key (counted fun r => r.setMetadata name value)
  | .getMetadata key name => ((c.require key).bind fun r => (r.getMetadata name).map .text, c)
  | .deleteMetadata key name => c.update key (counted fun r => r.deleteMetadata name)
  | .listMetadata key => ((c.require key).map fun r => .metadata r.metadata.toDict, c)
  | .find start => (.ok (.keys (c.find start)), c)
  | .findByMetadata query => ((c.findByMetadata query).map .keys, c)

end Container

/-- How a request that failed is noted. -/
def StoreError.event (e : StoreError) : Event :=
  if e.isValidation then .requestRejected
  else if e.isNotFound then .requestMissed
  else .requestFailed

end RecordStore
