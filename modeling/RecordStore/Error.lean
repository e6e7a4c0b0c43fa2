import RecordStore.Id
import RecordStore.Lifecycle.Basic

/-!
# Errors

Every way in which the store refuses a request or fails at its work, each named for its cause.
`StoreError.message` is the only place with wording.

Model of `KvError` and `SyncPhase`, section 7 of the specification.

* `isValidation`: the request itself was wrong.
* `isNotFound`: the request asked for what is not there.
* No error is of both kinds (`not_isNotFound_of_isValidation`).
-/

namespace RecordStore

/-- Why a text is no metadata query. -/
inductive QueryFault where
  | shape (clause : String)
  | emptyField (clause : String)
  | unknownOperator (name : String)
  deriving DecidableEq, Repr

/-- The fault in words. -/
def QueryFault.message : QueryFault → String
  | shape c => s!"clause '{c}' must have the form field:operator:value"
  | emptyField c => s!"clause '{c}' has an empty field"
  | unknownOperator n => s!"unknown operator '{n}'"

/-- What went wrong below the store. The wording of the system and of the database is theirs and
stands here as one phrase each; `reported` passes on a text. -/
inductive BackendFault where
  | system
  | append
  | stuck
  | entrySize (bytes : Nat)
  | database
  | reported (text : String)
  deriving DecidableEq, Repr

/-- The fault in words. -/
def BackendFault.message : BackendFault → String
  | system => "os error"
  | append => "log append failed: os error"
  | stuck => "log unusable until reopened: os error"
  | entrySize n => s!"log entry too large: {n} bytes"
  | database => "sqlite error"
  | reported t => t

/-- How stored data is unusable. -/
inductive Damage where
  | noValues (key : String)
  | unreadableId (key : String) (fault : IdFault)
  | reported (text : String)
  deriving DecidableEq, Repr

/-- The damage in words. -/
def Damage.message : Damage → String
  | noValues k => s!"record '{k}' has no values"
  | unreadableId k f => s!"bad id for '{k}': {f.message}"
  | reported t => t

/-- The two parts of a pass that change the backend. -/
inductive PassPhase where
  | applyDeletes
  | writeAll
  deriving DecidableEq, Repr

/-- The part in words. -/
def PassPhase.name : PassPhase → String
  | applyDeletes => "apply-deletes"
  | writeAll => "write-all"

/-- Why a request was refused or a task failed. -/
inductive StoreError where
  | emptyKey
  | emptyValue
  | keyNotFound (key : String)
  | metadataKeyNotFound (key name : String)
  | reservedMetadataKey (name : String)
  | keyMismatch (key recordKey : String)
  | invalidQuery (fault : QueryFault)
  | outOfRange (requested length : Nat)
  | invalidVersion (text : String)
  | backend (fault : BackendFault)
  | serialization (text : String)
  | corruption (damage : Damage)
  | passFailed (phase : PassPhase) (deleted written : Nat) (cause : StoreError)
  | passCancelled (phase : PassPhase) (deleted written : Nat)
  | notRunning (state : Lifecycle)
  | invalidTransition (source target : Lifecycle)
  deriving DecidableEq, Repr

namespace StoreError

/-- The error in words. -/
def message : StoreError → String
  | emptyKey => "key cannot be empty"
  | emptyValue => "value cannot be empty"
  | keyNotFound k => s!"key not found: {k}"
  | metadataKeyNotFound k n => s!"metadata key '{n}' not found on '{k}'"
  | reservedMetadataKey n => s!"metadata key '{n}' is reserved"
  | keyMismatch k r => s!"record key '{r}' does not match container key '{k}'"
  | invalidQuery f => s!"invalid query: {f.message}"
  | outOfRange v n => s!"version {v} is out of range (history has {n} versions)"
  | invalidVersion t => s!"invalid version '{t}'"
  | backend f => s!"backend I/O error: {f.message}"
  | serialization t => s!"serialization error: {t}"
  | corruption d => s!"data corruption: {d.message}"
  | passFailed p d w e =>
    s!"sync stopped during {p.name} after {d} deletes and {w} writes: {e.message}"
  | passCancelled p d w => s!"sync cancelled during {p.name} after {d} deletes and {w} writes"
  | notRunning s => s!"server is not running (state: {s.name})"
  | invalidTransition s t => s!"cannot move server from {s.name} to {t.name}"

instance : ToString StoreError := ⟨message⟩

/-- The request itself was wrong. -/
def isValidation : StoreError → Bool
  | emptyKey | emptyValue | reservedMetadataKey _ | keyMismatch _ _ | invalidQuery _
  | invalidVersion _ => true
  | _ => false

/-- The request asked for what is not there. -/
def isNotFound : StoreError → Bool
  | keyNotFound _ | metadataKeyNotFound _ _ | outOfRange _ _ => true
  | _ => false

theorem not_isNotFound_of_isValidation {e : StoreError} (h : e.isValidation = true) :
    e.isNotFound = false := by
  cases e <;> simp_all [isValidation, isNotFound]

end StoreError

end RecordStore
