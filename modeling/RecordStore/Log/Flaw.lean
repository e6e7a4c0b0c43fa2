/-!
# Flaws of log frames

What can be wrong with the first frame of some bytes, in the order in which it is looked for.

The ends of `replay` before the end of the file, section 13 of the specification.
-/

namespace RecordStore

/-- What is wrong with a frame. -/
inductive Flaw where
  /-- The bytes end inside the checksum or the length. -/
  | header
  /-- The bytes end inside the payload. -/
  | payload
  /-- The payload is not followed by a line feed. -/
  | terminator
  /-- The checksum is not that of the payload. -/
  | checksum
  /-- The payload is no entry. -/
  | entry
  deriving DecidableEq, Repr

/-- The flaw in words. -/
def Flaw.message : Flaw → String
  | header => "log truncated mid-header"
  | payload => "log truncated mid-entry"
  | terminator => "log entry missing terminator"
  | checksum => "log CRC mismatch"
  | entry => "undecodable log entry"

end RecordStore
