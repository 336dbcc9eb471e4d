import LeveledLog.CivilDate
import LeveledLog.Dialogue
import LeveledLog.Fault

/-!
# Stamps

A stamp is the date and the time of day of an instant in universal time, to the second. The
cache keeps the stamp of its last refresh for all lines until the next one; a refresher that
renews it at intervals is started and stopped.
-/

namespace LeveledLog

/-- An instant in milliseconds since the start of 1970. -/
abbrev Instant := Int64

namespace Stamp

open Numeral (zeroPad decimal)

/-- The second that holds an instant. Division goes toward 1970, so an earlier instant that is not
at the start of a second is put one second back. -/
def second (now : Instant) : Int64 :=
  let quotient := now / 1000
  if now < 0 ∧ now % 1000 ≠ 0 then quotient - 1 else quotient

/-- A year in at least four places, of which a minus sign takes one. -/
def yearText (year : Int) : Bytes :=
  if year < 0 then '-'.toUInt8 :: zeroPad 3 (decimal year.natAbs)
  else zeroPad 4 (decimal year.natAbs)

/-- A number in at least two places. -/
def twoDigits (n : Nat) : Bytes := zeroPad 2 (decimal n)

/-- The stamp of a civil time. -/
def text (t : CivilTime) : Bytes :=
  yearText (t.yearsSince1900 + 1900).toInt ++ utf8 "/" ++ twoDigits t.month ++ utf8 "/" ++
    twoDigits t.day ++ utf8 " " ++ twoDigits t.hour ++ utf8 ":" ++ twoDigits t.minute ++
    utf8 ":" ++ twoDigits t.second ++ utf8 " "

/-- What stands in the place of a stamp that cannot be made. -/
def fallback : Bytes := utf8 "0000/00/00 00:00:00 "

/-- The length that no stamp may reach. -/
def room : Nat := 64

/-- The stamp of an instant. -/
def ofInstant (now : Instant) : Bytes :=
  match CivilTime.ofSecond? (second now) with
  | none => fallback
  | some t => if 0 < (text t).length ∧ (text t).length < room then text t else fallback

end Stamp

/-- The stamp of the last refresh and the refresher that renews it. -/
structure StampCache where
  current : Bytes
  /-- The milliseconds between two refreshes. -/
  interval : Int64
  running : Bool
  deriving DecidableEq, Repr

namespace StampCache

/-- The interval when none or one that is not positive is asked for. -/
def defaultInterval : Int64 := 1000

/-- A cache that holds the stamp of the present instant. -/
def create (now : Instant) (interval : Int64) : StampCache :=
  ⟨Stamp.ofInstant now, if interval ≤ 0 then defaultInterval else interval, false⟩

/-- Renew the stamp. -/
def refresh (c : StampCache) (now : Instant) : StampCache :=
  { c with current := Stamp.ofInstant now }

/-- Start the refresher. False when it runs already. -/
def start (c : StampCache) : Dialogue (Bool × StampCache) :=
  if c.running then return (false, c)
  else do
    .report .debug <| utf8 "TimestampCache: refresh thread started (interval_ms=" ++
      Numeral.signed c.interval.toInt ++ utf8 ")"
    return (true, { c with running := true })

/-- Stop the refresher if it runs. -/
def stop (c : StampCache) : Dialogue StampCache :=
  if c.running then do
    .report .debug (utf8 "TimestampCache: refresh thread stopped")
    return { c with running := false }
  else return c

end StampCache

end LeveledLog
