import LeveledLog.Command.Options
import LeveledLog.Logger
import LeveledLog.Stamp

/-!
# The relay

The relay writes every line of an input through a writer at one level. It stops at the first
line that the destination does not take, and its exit status says whether everything arrived.
-/

namespace LeveledLog.Command

/-- Cut an input into lines. A piece behind the last line feed is a line unless it is empty. -/
def linesOf (input : Bytes) : List Bytes := go [] input
where
  /-- Cut the rest of an input, the bytes of its first line read so far last first. -/
  go (reversed : Bytes) : Bytes → List Bytes
    | [] => if reversed.isEmpty then [] else [reversed.reverse]
    | b :: rest =>
      if b == Bytes.lineFeed then reversed.reverse :: go [] rest else go (b :: reversed) rest

/-- The relay at work. -/
structure Relay where
  options : Options
  stamps : StampCache
  writer : Writer
  /-- Whether the destination has failed. -/
  failed : Bool
  deriving DecidableEq, Repr

namespace Relay

/-- Report a failure and take no more lines. -/
def fail (r : Relay) (message : Bytes) : Dialogue Relay := do
  .tell (.said (complaint message))
  return { r with failed := true }

/-- The complaint about a line that could not be flushed. -/
def flushComplaint (r : Relay) : Bytes :=
  utf8 "flush to " ++ r.writer.destinationName ++ utf8 " failed"

/-- Flush the writer if every line is to be flushed at once. -/
def flushLine (r : Relay) : Dialogue Relay :=
  if r.options.flushEachLine then do
    let (result, writer) ← r.writer.flush
    let r := { r with writer }
    match result with
    | .ok true => return r
    | .ok false => r.fail r.flushComplaint
    | .error fault => r.fail fault.message
  else return r

/-- Write one line, unless the destination has failed before or the level of the lines is
below the threshold. -/
def feed (r : Relay) (line : Bytes) : Dialogue Relay :=
  if r.failed || !(Logger.mk r.writer).isEnabled r.options.level then return r
  else do
    let (result, writer) ← r.writer.write r.stamps.current r.options.level line
    let r := { r with writer }
    match result with
    | .ok _ => r.flushLine
    | .error fault => r.fail fault.message

/-- Write lines in order. -/
def feedAll (r : Relay) : List Bytes → Dialogue Relay
  | [] => return r
  | line :: rest => do (← r.feed line).feedAll rest

/-- Close the writer, stop the refresher and give the exit status. -/
def finish (r : Relay) : Dialogue UInt8 := do
  let (complete, _) ← r.writer.close
  let _ ← r.stamps.stop
  return if r.failed || !complete then 1 else 0

/-- Relay a whole input and give the exit status. -/
def serve (r : Relay) (input : Bytes) : Dialogue UInt8 := do
  (← r.feedAll (linesOf input)).finish

end Relay

/-- What there is before the destination is opened: the running stamp cache and the settings. -/
def prepare (now : Instant) (environment : Environment) (pageSize : Int64) :
    Dialogue (StampCache × Settings) := do
  let (_, stamps) ← (StampCache.create now StampCache.defaultInterval).start
  let settings ← Settings.fromEnvironment environment pageSize
  return (stamps, settings)

/-- Set the relay up for a destination. There is no relay, only an exit status, when the
destination could not be opened. -/
def open? (options : Options) (stamps : StampCache) (settings : Settings) (pageSize : Int64)
    (destination : Except Fault Sink) : Dialogue (Except UInt8 Relay) := do
  let writer ← match destination with
    | .error fault => return .error (← giveUp fault)
    | .ok sink => Writer.create (some sink) true settings pageSize
  match writer with
  | .error fault => return .error (← giveUp fault)
  | .ok writer => return .ok ⟨options, stamps, writer, false⟩
where
  /-- Report why there is no destination. -/
  giveUp (fault : Fault) : Dialogue UInt8 := do
    .tell (.said (complaint fault.message))
    let _ ← stamps.stop
    return 1

/-- Refuse the arguments. -/
def refuse (fault : OptionFault) : Dialogue UInt8 := do
  .tell (.said (complaint fault.message))
  .tell (.said usage)
  return 2

/-- Show how the command is used. -/
def help : Dialogue UInt8 := do
  .tell (.said usage)
  return 0

end LeveledLog.Command
