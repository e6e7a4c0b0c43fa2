import RecordStore.Event
import RecordStore.Storage.Discard
import RecordStore.Storage.Log
import RecordStore.Storage.Memory
import RecordStore.Storage.Tables
import RecordStore.Text.Blank

/-!
# Kinds of storage

The storage of a server is chosen by name: `log`, `sqlite`, `memory` or `none`, each but the second
and the last also under other names, in any ASCII case and with blanks around it or not.

Model of `DriverKind`, with `parse_lossy` as `Kind.parse`, and of `open_backend`, sections 12 and 13
of the specification.

* `Kind.parse?` knows the names, `Kind.parse` takes a log for what it does not know and notes it.
* `Kind.parse?_name`: a kind is read back from its name.
* `Backing` is a storage of any kind, `Kind.openAt` opens one.
-/

namespace RecordStore

/-- A kind of storage. -/
inductive Kind where
  | log
  | tables
  | memory
  | discard
  deriving DecidableEq, Repr, Inhabited

namespace Kind

/-- Its name. -/
def name : Kind → String
  | log => "log"
  | tables => "sqlite"
  | memory => "memory"
  | discard => "none"

instance : ToString Kind := ⟨name⟩

/-- A name without blanks around it and in lower case. -/
def normalize (text : String) : String :=
  .ofList ((Text.trim text.toList).map Char.toLower)

/-- The kind of a name. -/
def parse? (text : String) : Option Kind :=
  let known := normalize text
  if known ∈ ["log", "flat_file", "file"] then some log
  else if known = "sqlite" then some tables
  else if known ∈ ["memory", "mock"] then some memory
  else if known = "none" then some discard
  else none

/-- What is said of an unknown name. -/
def unknownMessage (text : String) : String :=
  s!"unknown driver '{normalize text}'"

/-- The kind of a name, or a log. -/
def parse (text : String) : Kind × List Event :=
  match parse? text with
  | some kind => (kind, [])
  | none => (log, [.unknownDriver])

/-- Where it is kept if nothing else is said. -/
def defaultLocation : Kind → Option String
  | log => some "simplekv.log"
  | tables => some "simplekv.db"
  | memory => none
  | discard => none

theorem parse?_name (kind : Kind) : parse? kind.name = some kind := by
  cases kind <;> decide +kernel

end Kind

/-- A storage of any kind. -/
inductive Backing where
  | log (s : LogStore)
  | tables (s : TableStore)
  | memory (s : MemoryStore)
  | discard (s : DiscardStore)

namespace Backing

instance : Inhabited Backing := ⟨memory ∅⟩

/-- Does something with the storage, whatever it is. -/
def on (act : {σ : Type} → [Storage σ] → σ → Outcome σ α) : Backing → Outcome Backing α
  | log s => (act s).within log
  | tables s => (act s).within tables
  | memory s => (act s).within memory
  | discard s => (act s).within discard

instance : Storage Backing where
  name
    | log s => Storage.name s
    | tables s => Storage.name s
    | memory s => Storage.name s
    | discard s => Storage.name s
  retains
    | log s => Storage.retains s
    | tables s => Storage.retains s
    | memory s => Storage.retains s
    | discard s => Storage.retains s
  write r := on (Storage.write r)
  read key := on (Storage.read key)
  delete key := on (Storage.delete key)
  load := on Storage.load
  keys := on Storage.keys
  compare r := on (Storage.compare r)
  flush := on Storage.flush

/-- Whether it is kept in a file. -/
def inFile : Backing → Bool
  | log _ => true
  | tables _ => true
  | memory _ => false
  | discard _ => false

/-- The storage after closing it and opening it again where it is kept. Of what is not kept in a
file nothing is left. -/
def reopen : Backing → Backing
  | log s => log s.reopen.1
  | tables s => tables s.reopen
  | memory _ => memory ∅
  | discard s => discard s

end Backing

/-- Opens a storage at a path. Only a log and tables are kept in files. -/
def Kind.openAt (site : Site) : Kind → Except StoreError (Backing × List Event)
  | log => (LogStore.openAt site).map fun opened => (.log opened.1, opened.2)
  | tables => (TableStore.openAt site).map fun s => (.tables s, [])
  | memory => .ok (.memory ∅, [])
  | discard => .ok (.discard ⟨⟩, [])

end RecordStore
