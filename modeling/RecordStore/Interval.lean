import RecordStore.Event
import RecordStore.Text.Blank
import RecordStore.Text.Decimal

/-!
# Intervals

The time between passes, in whole seconds. What gives no usable interval counts as the default one.

Model of `parse_interval` and `interval_from_secs`, section 12 of the specification.

* `Interval.ofSeconds`: a number of seconds, which may be anything.
* `Interval.parse`: a text, with blanks around it or not. An empty one is not worth noting.
* `Interval.parse_pos`: an interval is never zero.
-/

namespace RecordStore.Interval

/-- The interval if none is given. -/
def default : Nat := 10

/-- So many seconds, if there are any. -/
def ofSeconds (seconds : Int) : Nat × List Event :=
  if 0 < seconds then (seconds.toNat, []) else (default, [.intervalNotPositive])

/-- The interval that a text gives. -/
def parse (text : String) : Nat × List Event :=
  let cs := Text.trim text.toList
  match Text.signedWord? cs with
  | some seconds => ofSeconds seconds
  | none => (default, if cs.isEmpty then [] else [.intervalUnreadable])

theorem ofSeconds_pos (seconds : Int) : 0 < (ofSeconds seconds).1 := by
  unfold ofSeconds
  split
  · simpa
  · decide

theorem parse_pos (text : String) : 0 < (parse text).1 := by
  simp only [parse]
  split
  · exact ofSeconds_pos _
  · exact Nat.succ_pos 9

end RecordStore.Interval
