import RecordStore.Interval
import RecordStore.Storage.Kind
import RecordStore.Toml.Document

/-!
# Configuration

A server is configured by a document, by the environment or by both, one laid over the other.

Model of `KvConfig`, section 12 of the specification: `ofText` is `from_toml_str`, `ofFile` is
`from_file` and `override` is `apply_overrides`.

* `Config.ofText` reads a document, `Config.ofFile` one from a file that may not be there.
  A document may set the driver, the location and the interval, and nothing else.
* `Config.override` lays an environment over a configuration. A variable that is there wins, except
  for an empty location.
* `override_none`: an empty environment changes nothing.
* A driver that is not known and an interval that is not usable are no errors. They are noted, and
  the default is taken.
-/

namespace RecordStore

/-- Why there is no configuration. -/
inductive ConfigFault where
  /-- The file is not there or holds no Unicode. -/
  | unreadable
  /-- The document breaks the rules of its format, or sets what cannot be set. -/
  | malformed
  deriving DecidableEq, Repr

/-- The configuration of a server. -/
structure Config where
  /-- The kind of storage. -/
  kind : Kind := .log
  /-- Where it is kept, if not where its kind is by default. -/
  location : Option String := none
  /-- The seconds between passes. -/
  interval : Nat := Interval.default
  deriving DecidableEq, Repr

/-- What the environment says under a name. -/
abbrev Environment := String → Option String

namespace Config

/-- An interval as a document gives it. -/
inductive Written where
  | seconds (n : Int)
  | text (s : String)

/-- The interval that is meant. -/
def Written.interval : Written → Nat × List Event
  | seconds n => Interval.ofSeconds n
  | text s => Interval.parse s

/-- What has been read of a document. -/
structure Draft where
  kind : Option Kind := none
  location : Option String := none
  interval : Option Written := none

namespace Draft

/-- One more setting. -/
def set (d : Draft) (name : String) (spot : Toml.Spot) : Option Draft × List Event :=
  match name, spot with
  | "driver", .value (.string s) =>
    let (kind, events) := Kind.parse s
    (some { d with kind }, events)
  | "location", .value (.string s) => (some { d with location := s }, [])
  | "sync_interval", .value (.integer n) => (some { d with interval := some (.seconds n) }, [])
  | "sync_interval", .value (.string s) => (some { d with interval := some (.text s) }, [])
  | _, _ => (none, [])

/-- Settings in turn, up to one that cannot be. -/
def fill (d : Draft) : List (String × Toml.Spot) → Option Draft × List Event
  | [] => (some d, [])
  | (name, spot) :: rest =>
    match d.set name spot with
    | (none, events) => (none, events)
    | (some d, events) =>
      let (filled, more) := d.fill rest
      (filled, events ++ more)

/-- The configuration, with defaults for what has not been set. -/
def complete (d : Draft) : Config × List Event :=
  let base : Config := {}
  let (interval, events) := (d.interval.map Written.interval).getD (base.interval, [])
  ({ kind := d.kind.getD base.kind, location := d.location, interval }, events)

end Draft

/-- The configuration that a document sets. -/
def ofText (text : String) : Except ConfigFault Config × List Event :=
  match Toml.Layout.ofText? text with
  | none => (.error .malformed, [])
  | some layout =>
    match Draft.fill {} layout.top with
    | (none, events) => (.error .malformed, events)
    | (some d, events) =>
      let (config, more) := d.complete
      (.ok config, events ++ more)

/-- The configuration in a file with this content, if there is such a file. -/
def ofFile (content : Option (List UInt8)) : Except ConfigFault Config × List Event :=
  match content.bind fun bytes => String.fromUTF8? bytes.toByteArray with
  | none => (.error .unreadable, [])
  | some text => ofText text

/-- The configuration under an environment. -/
def override (env : Environment) (c : Config) : Config × List Event :=
  let (kind, noted) := ((env "SIMPLEKV_DRIVER").map Kind.parse).getD (c.kind, [])
  let location := ((env "SIMPLEKV_LOCATION").filter (· ≠ "")).or c.location
  let (interval, more) :=
    ((env "SIMPLEKV_SYNC_INTERVAL").map Interval.parse).getD (c.interval, [])
  ({ kind, location, interval }, noted ++ more)

/-- Where the storage is kept. -/
def resolvedLocation (c : Config) : Option String :=
  c.location.or c.kind.defaultLocation

theorem override_none (c : Config) : c.override (fun _ => none) = (c, []) := rfl

end Config

end RecordStore
