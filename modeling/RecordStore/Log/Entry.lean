import RecordStore.Record.Json
import RecordStore.Text.Decimal

/-!
# Log entries

An entry of the log says when something was done and what: a record was written as it is in full, or
a key was deleted. It is stored as a JSON object with the fields `ts`, the time in milliseconds,
and `op`.

Model of `LogEntry` and `LogOp`, section 13 of the specification.

* `Entry.encode` writes an entry, `Entry.decode?` reads one.
* What stands in `op` is checked in full before it is understood: strings that are not Unicode,
  numbers without a finite value and nesting beyond 127 levels make the entry unreadable there, but
  not in other fields that are passed over.
* `Operation.apply` is what an entry does to the records.
-/

namespace RecordStore

/-- What was done. -/
inductive Operation where
  | write (record : Snapshot)
  | delete (key : String)
  deriving DecidableEq

namespace Operation

instance : Inhabited Operation := ⟨delete ""⟩

/-- The records after it was done. -/
def apply (records : Dict Snapshot) : Operation → Dict Snapshot
  | write r => records.insert r.key r
  | delete key => records.erase key

/-- The operation as a JSON value. -/
def toJson : Operation → Json
  | write r => .ofFields [("kind", .ofText "write"), ("record", r.toJson)]
  | delete key => .ofFields [("kind", .ofText "delete"), ("key", .ofText key)]

/-- The operation that an object's fields stand for. Only the fields of its kind count. -/
def ofFields? (fields : List (String × Json)) : Option Operation := do
  let kind ← (← Json.only? "kind" fields).text?
  if kind = "write" then
    return .write (← Snapshot.ofJson? (← Json.only? "record" fields))
  else if kind = "delete" then
    return .delete (← (← Json.only? "key" fields).text?)
  else none

/-- The operation that the items of an array stand for. -/
def ofItems? : List Json → Option Operation
  | [kind, part] => do
    let kind ← kind.text?
    if kind = "write" then return .write (← Snapshot.ofJson? part)
    else if kind = "delete" then return .delete (← part.text?)
    else none
  | _ => none

/-- How deep a value may be nested inside an entry. -/
def depth : Nat := 126

/-- The operation that a JSON value stands for. -/
def ofJson? (json : Json) : Option Operation :=
  if json.plain depth then
    match json with
    | .array items => ofItems? items
    | json => json.fields?.bind ofFields?
  else none

end Operation

/-- An entry of the log. -/
structure Entry where
  time : Int64
  operation : Operation
  deriving DecidableEq

namespace Entry

instance : Inhabited Entry := ⟨⟨0, default⟩⟩

/-- The entry as a JSON value. -/
def toJson (e : Entry) : Json :=
  .ofFields [("ts", .number (.ofInt e.time.toInt)), ("op", e.operation.toJson)]

/-- A time in milliseconds, which must fit 64 bits. -/
def time? (json : Json) : Option Int64 :=
  json.integer?.bind fun n => if Text.isSignedWord n then some (Int64.ofInt n) else none

/-- The entry that a JSON value stands for. -/
def ofJson? : Json → Option Entry
  | .array [time, operation] => return ⟨← time? time, ← Operation.ofJson? operation⟩
  | .array _ => none
  | json => do
    let fields ← json.fields?
    return ⟨← time? (← Json.only? "ts" fields), ← Operation.ofJson? (← Json.only? "op" fields)⟩

/-- The entry as JSON text. -/
def encode (e : Entry) : List UInt8 := e.toJson.write

/-- The entry that a JSON text writes. -/
def decode? (text : List UInt8) : Option Entry := (Json.read? text).bind ofJson?

end Entry

end RecordStore
