import RecordStore.Log.Flaw

/-!
# Events

What the store notes beside its answers: what it made do with, what it gave up, and how requests
failed. Answers carry their events along, and `Event.line` puts one into words behind its level.
-/

namespace RecordStore

/-- Something worth noting. -/
inductive Event where
  /-- The log is read no further. -/
  | replayStopped (flaw : Flaw)
  /-- The bytes behind the last good frame were cut off. -/
  | tailCut
  /-- Part of a frame could not be cut off. -/
  | cutBackFailed
  /-- The file of a compaction that failed could not be removed. -/
  | partialKept
  /-- The log could not be compacted. -/
  | compactionFailed
  /-- A driver's name is unknown. -/
  | unknownDriver
  /-- An interval is zero or less. -/
  | intervalNotPositive
  /-- An interval is no number of 64 bits. -/
  | intervalUnreadable
  /-- The stored records could not be loaded. -/
  | loadFailed
  /-- A pass that came due failed. -/
  | periodicPassFailed
  /-- No pass could ever come due. -/
  | timerBroken
  /-- The last pass failed. -/
  | finalPassFailed
  /-- A request was wrong. -/
  | requestRejected
  /-- A request asked for what is not there. -/
  | requestMissed
  /-- A request failed otherwise. -/
  | requestFailed
  deriving DecidableEq, Repr

/-- The event in words, behind its level. -/
def Event.line : Event → String
  | replayStopped flaw => s!"WARN {flaw.message}; stopping replay"
  | tailCut => "WARN truncating damaged log tail"
  | cutBackFailed => "ERROR could not cut log back to last frame; refusing further operations"
  | partialKept => "WARN could not remove partial compaction file"
  | compactionFailed => "WARN log compaction failed"
  | unknownDriver => "WARN unknown persistence driver, falling back to log"
  | intervalNotPositive => "WARN non-positive sync interval, using default"
  | intervalUnreadable => "WARN unparsable sync interval, using default"
  | loadFailed => "ERROR failed to load persisted records"
  | periodicPassFailed => "WARN periodic sync failed, retrying next cycle"
  | timerBroken => "WARN sync task ended abnormally"
  | finalPassFailed => "ERROR final sync failed"
  | requestRejected => "DEBUG request rejected"
  | requestMissed => "TRACE not found"
  | requestFailed => "WARN request failed"

end RecordStore
