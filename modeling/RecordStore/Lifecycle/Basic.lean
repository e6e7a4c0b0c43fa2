/-!
# The life of a server

A server is created `unknown`, starts, runs, stops, and may start again. A start whose load fails
and a stop whose last pass fails both end in `error`, which nothing leaves.

Model of `ServerState`, section 14 of the specification.

* `canBecome`: the seven moves.
* `name`, `ofName?`: the states in words, and back (`ofName?_name`).
-/

namespace RecordStore

/-- Where a server is in its life. -/
inductive Lifecycle where
  | unknown
  | starting
  | running
  | stopping
  | stopped
  | error
  deriving DecidableEq, Repr, Inhabited

namespace Lifecycle

/-- The state in words. -/
def name : Lifecycle → String
  | unknown => "Unknown"
  | starting => "Starting"
  | running => "Running"
  | stopping => "Stopping"
  | stopped => "Stopped"
  | error => "Error"

instance : ToString Lifecycle := ⟨name⟩

/-- Every state, in the order of a life. -/
def all : List Lifecycle :=
  [unknown, starting, running, stopping, stopped, error]

/-- The state of a name, which must be written exactly. -/
def ofName? (text : String) : Option Lifecycle :=
  all.find? (·.name = text)

theorem ofName?_name (s : Lifecycle) : ofName? s.name = some s := by
  cases s <;> decide

/-- Whether a server may go from the first state to the second. -/
def canBecome : Lifecycle → Lifecycle → Bool
  | unknown, starting => true
  | stopped, starting => true
  | starting, running => true
  | starting, error => true
  | running, stopping => true
  | stopping, stopped => true
  | stopping, error => true
  | _, _ => false

@[simp]
theorem canBecome_error_left (s : Lifecycle) : canBecome error s = false := rfl

end Lifecycle

end RecordStore
