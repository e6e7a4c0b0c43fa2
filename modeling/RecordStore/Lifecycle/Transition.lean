import RecordStore.Error

/-!
# Moving between states

Model of `ServerStateCell`, section 14 of the specification: `move` is `transition`, `moveFromAny` is
`transition_from_any`.

* `move source target`: from a state that the server must be in, by an allowed move.
* `moveFromAny sources target`: from whichever of some states the server is in.

A refused move leaves the state as it is. It names the states of the move when the move is not
allowed at all, and the state that the server is really in when that is the obstacle.
-/

namespace RecordStore.Lifecycle

/-- Goes from `source` to `target`, if that is a move and the server is in `source`. -/
def move (source target current : Lifecycle) : Except StoreError Lifecycle :=
  if !source.canBecome target then .error (.invalidTransition source target)
  else if current = source then .ok target
  else .error (.invalidTransition current target)

/-- Goes to `target` from the state the server is in, if that is one of `sources`. -/
def moveFromAny (sources : List Lifecycle) (target current : Lifecycle) :
    Except StoreError Lifecycle :=
  if current ∈ sources then move current target current
  else .error (.invalidTransition current target)

theorem move_eq_ok_iff {source target current next : Lifecycle} :
    move source target current = .ok next ↔
      source.canBecome target = true ∧ current = source ∧ target = next := by
  by_cases h : source.canBecome target = true <;> by_cases hc : current = source <;>
    simp [move, h, hc]

end RecordStore.Lifecycle
