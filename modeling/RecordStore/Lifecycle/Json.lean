import RecordStore.Json.Reader
import RecordStore.Json.Writer
import RecordStore.Lifecycle.Basic

/-!
# States as JSON

A state is written as its name. It is read from its name, or from an object with `null` under its
name as the only field.
-/

namespace RecordStore.Lifecycle

/-- The state that a JSON value stands for. -/
def ofJson? : Json → Option Lifecycle
  | .string pieces => (Piece.text? pieces).bind ofName?
  | .object [(name, .null)] => (Piece.text? name).bind ofName?
  | _ => none

/-- The state as JSON text. -/
def encode (s : Lifecycle) : List UInt8 := (Json.ofText s.name).write

/-- The state that a JSON text writes. -/
def decode? (text : List UInt8) : Option Lifecycle := (Json.read? text).bind ofJson?

end RecordStore.Lifecycle
