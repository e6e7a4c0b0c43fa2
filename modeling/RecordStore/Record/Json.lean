import RecordStore.Base64
import RecordStore.Json.Reader
import RecordStore.Json.Writer
import RecordStore.Record.Basic

/-!
# Stored records as JSON

A stored record is an object with the fields `id`, `key`, `values` and `metadata`, written in this
order. The values are texts in base 64 and the metadata are an object in ascending order of names.

* `Snapshot.toJson` writes a record so.
* `Snapshot.ofJson?` reads it from an object that has each of the four fields once, in any order
  and among others, or from an array of the four. Of a metadata name that is repeated the last
  value counts.
-/

namespace RecordStore.Snapshot

/-- The record as a JSON value. -/
def toJson (s : Snapshot) : Json :=
  .ofFields [
    ("id", .ofText s.id.toText),
    ("key", .ofText s.key),
    ("values", .array (s.values.map fun v => .ofText (Base64.encode v))),
    ("metadata", .ofFields (s.metadata.toList.map fun entry => (entry.1, .ofText entry.2)))]

/-- The record with these parts. -/
def ofParts? (id key values metadata : Json) : Option Snapshot := do
  let id ← Id.read? (← id.text?)
  let key ← key.text?
  let values ← (← values.items?).mapM fun v => v.text?.bind Base64.decode?
  let metadata ← (← metadata.fields?).mapM fun field => field.2.text?.map (field.1, ·)
  return ⟨id, key, values, .ofList metadata⟩

/-- The record that a JSON value stands for. -/
def ofJson? : Json → Option Snapshot
  | .array [id, key, values, metadata] => ofParts? id key values metadata
  | .array _ => none
  | json => do
    let fields ← json.fields?
    ofParts? (← Json.only? "id" fields) (← Json.only? "key" fields)
      (← Json.only? "values" fields) (← Json.only? "metadata" fields)

/-- The record as JSON text. -/
def encode (s : Snapshot) : List UInt8 := s.toJson.write

/-- The record that a JSON text writes. -/
def decode? (text : List UInt8) : Option Snapshot := (Json.read? text).bind ofJson?

end RecordStore.Snapshot
