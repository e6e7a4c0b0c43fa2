import RecordStore.Log.Replay
import RecordStore.Storage.Basic
import RecordStore.Storage.Site

/-!
# Storage in a log

Every write and every delete of a stored key is one frame at the end of a file. The records are
kept in memory as well; opening the file replays it, and cuts off what is behind the last good
frame, so that what comes later stands on the end of a frame.

Model of `LogBackend`, the flat file log of section 13 of the specification: `openAt` and `recover`
are its `open`, which runs `replay`; `append`, `appendFrame` and `rollBack` are `append`,
`append_frame` and `rollback`; `compact` and `rewrite` are `compact` and `compact_locked` with
`write_compacted`. Of what is only reported, the notes of success are left out.

* `append` puts an entry at the end. If the file cannot take all of its frame, what was written of
  it is cut off again and nothing has changed. If it cannot be cut off, the log is stuck: it takes
  nothing more until it is opened again.
* `compact` makes a new file with one frame for each record, in ascending order of keys. It takes
  the place of the old one only when it is complete.
* `flush` compacts when there are many entries and most of them are dead.
* `recover` opens a log of any bytes, `reopen` opens the file of a log again.
-/

namespace RecordStore

/-- What the system is at the moment: the time, and how long a file may become, if that is
limited. -/
structure Disk where
  now : Int64 := 0
  limit : Option Nat := none
  deriving DecidableEq

/-- What the system lets be done with a file beside writing to its end. -/
structure Medium where
  /-- Whether a file can be cut. -/
  cuts : Bool := true
  /-- Whether it can be made sure that what was written is kept. -/
  syncs : Bool := true
  /-- Whether a file can be removed. -/
  removes : Bool := true
  deriving DecidableEq

/-- An open log: its file, the length up to the end of the last frame, the records, and the number
of entries in the file. -/
structure LogStore where
  file : ByteArray
  boundary : Nat
  records : Dict Snapshot
  entryCount : Nat
  disk : Disk := {}
  medium : Medium := {}
  /-- Whether part of a frame may stand behind the last one. -/
  stuck : Bool := false

namespace LogStore

/-- The log of an empty file. -/
def empty : LogStore := { file := .empty, boundary := 0, records := ∅, entryCount := 0 }

instance : EmptyCollection LogStore := ⟨empty⟩

instance : Inhabited LogStore := ⟨empty⟩

/-- Below this number of entries the log is never compacted by itself. -/
def compactionThreshold : Nat := 1024

/-- The number of records. -/
def recordCount (s : LogStore) : Nat := s.records.size

/-- The log of a file's bytes, and what was wrong with them. The tail is cut off and the file made
sure of: a medium that does not let this be done is not considered here, but only when an open log
is used. -/
def recover (content : ByteArray) : LogStore × List Event :=
  let replay := Replay.of content.data.toList
  let valid := content.size - replay.rest.length
  let stopped := replay.flaw.toList.map .replayStopped
  let cut := if valid < content.size then [.tailCut] else []
  ({
      file := content.extract 0 valid
      boundary := valid
      records := replay.records
      entryCount := replay.entries.length },
    stopped ++ cut)

/-- The log at a path. -/
def openAt : Site → Except StoreError (LogStore × List Event)
  | .file content => .ok (recover content)
  | .directory => .error (.backend .system)
  | .belowFile => .error (.backend .system)

/-- How many of some bytes the file can still take. -/
def room (s : LogStore) (bytes : List UInt8) : Nat :=
  match s.disk.limit with
  | none => bytes.length
  | some limit => min bytes.length (limit - s.file.size)

/-- The file with some bytes at its end. -/
def extend (s : LogStore) (bytes : List UInt8) : LogStore :=
  { s with file := s.file ++ bytes.toByteArray }

/-- Does something with a log that is not stuck. -/
def whenUsable (act : LogStore → Outcome LogStore α) (s : LogStore) : Outcome LogStore α :=
  if s.stuck then .fail (.backend .stuck) s else act s

/-- Cuts off what was written of a frame. -/
def rollBack (s : LogStore) : Outcome LogStore Unit :=
  if s.medium.cuts then .fail (.backend .append) { s with file := s.file.extract 0 s.boundary }
  else ⟨.error (.backend .append), { s with stuck := true }, [.cutBackFailed]⟩

/-- Puts a frame at the end of the file. -/
def appendFrame (frame : List UInt8) (s : LogStore) : Outcome LogStore Unit :=
  let room := s.room frame
  let s := s.extend (frame.take room)
  if room < frame.length then s.rollBack
  else .ok () { s with boundary := s.boundary + frame.length, entryCount := s.entryCount + 1 }

/-- Puts an entry at the end of the file. -/
def append (operation : Operation) (s : LogStore) : Outcome LogStore Unit :=
  match Frame.ofEntry? ⟨s.disk.now, operation⟩ with
  | .error e => .fail e s
  | .ok frame => s.whenUsable (appendFrame frame)

/-- Does something to the records that the log is to remember. -/
def record (operation : Operation) (s : LogStore) : Outcome LogStore Unit :=
  (s.append operation).andThen fun _ s =>
    .ok () { s with records := operation.apply s.records }

/-- Stores a record. -/
def write (r : Snapshot) (s : LogStore) : Outcome LogStore Unit := s.record (.write r)

/-- Removes the record of a key. What is not there needs no entry. -/
def delete (key : String) (s : LogStore) : Outcome LogStore Unit :=
  s.whenUsable fun s => if key ∈ s.records then s.record (.delete key) else .ok () s

/-- The record of a key. -/
def read (key : String) (s : LogStore) : Except StoreError Snapshot :=
  match s.records[key]? with
  | some r => .ok r
  | none => .error (.keyNotFound key)

/-- The bytes of a file with one frame for each record. -/
def compacted (s : LogStore) : Except StoreError (List UInt8) :=
  (s.records.values.mapM fun r => Frame.ofEntry? ⟨s.disk.now, .write r⟩).map List.flatten

/-- Whether a file may become this long. -/
def mayBecome (s : LogStore) (length : Nat) : Bool :=
  match s.disk.limit with
  | none => true
  | some limit => length ≤ limit

/-- A failure to compact, after which the new file is removed. -/
def abandon (e : StoreError) (s : LogStore) : Outcome LogStore Unit :=
  ⟨.error e, s, if s.medium.removes then [.compactionFailed] else [.partialKept, .compactionFailed]⟩

/-- Puts a new file with one frame for each record in place of the old one. The new file is written
beside the log under a name of its own: the path of the log is taken not to end in `.compact`, for
then both would be the same file. -/
def rewrite (s : LogStore) : Outcome LogStore Unit :=
  match s.compacted with
  | .error e => s.abandon e
  | .ok bytes =>
    if s.mayBecome bytes.length && s.medium.syncs then
      .ok () {
        s with file := bytes.toByteArray, boundary := bytes.length, entryCount := s.recordCount }
    else s.abandon (.backend .system)

/-- Rewrites the log so that it holds nothing dead. -/
def compact (s : LogStore) : Outcome LogStore Unit := s.whenUsable rewrite

/-- Whether most entries of a long log are dead. -/
def wantsCompaction (s : LogStore) : Bool :=
  compactionThreshold ≤ s.entryCount && 2 * s.recordCount < s.entryCount

/-- Makes sure of what was written, and compacts a log that is mostly dead. -/
def flush (s : LogStore) : Outcome LogStore Unit :=
  s.whenUsable fun s =>
    if !s.medium.syncs then .fail (.backend .system) s
    else if s.wantsCompaction then s.compact
    else .ok () s

/-- The log after closing its file and opening it again, which succeeds as `recover` does, whatever
the disk and the medium were. -/
def reopen (s : LogStore) : LogStore × List Event := recover s.file

instance : Storage LogStore where
  name _ := "log"
  write := write
  read key s := ⟨s.read key, s, []⟩
  delete := delete
  load s := .ok s.records.values s
  keys s := .ok s.records.keys s
  flush := flush

end LogStore

end RecordStore
