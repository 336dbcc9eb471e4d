import LeveledLog.Command.Launch
import LeveledLog.Descriptor
import Std.Time.DateTime.Timestamp

/-!
# The command line

The command as a program: its host is the operating system, its clock the wall clock, and its
input is relayed as it arrives. There is no network among its destinations.
-/

namespace LeveledLog.Command

/-- A sink that is open in the operating system. -/
structure OpenSink where
  stream : IO.FS.Stream
  descriptor : Descriptor

/-- The bytes as the operating system takes them. -/
def packed (s : Bytes) : ByteArray := ByteArray.mk s.toArray

/-- The bytes of a text of the operating system. -/
def unpacked (s : ByteArray) : Bytes := s.data.toList

/-- The reason of the operating system behind an exception. -/
def systemError (e : IO.Error) : SystemError :=
  match e with
  | .noFileOrDirectory .. => .notFound
  | .permissionDenied .. => .permissionDenied
  | .resourceExhausted .. => .noSpace
  | .resourceVanished .. => .brokenPipe
  | .inappropriateType _ code _ | .invalidArgument _ code _ =>
    (SystemError.ofCode? code.toNat).getD .inputOutput
  | _ => .inputOutput

/-- Write to the standard error output. -/
def complain (text : Bytes) : IO Unit := do
  let stream ← IO.getStderr
  stream.write (packed text)
  stream.flush

/-- Open a sink in the operating system. -/
def openInSystem (sinks : IO.Ref (List OpenSink)) (destination : Destination) :
    IO (Except Fault Sink) := do
  let seat (stream : IO.FS.Stream) (descriptor : Descriptor) : IO (Except Fault Sink) := do
    let known ← sinks.get
    sinks.set (known ++ [⟨stream, descriptor⟩])
    return .ok ⟨known.length, descriptor.name⟩
  match destination with
  | .file path =>
    match String.fromUTF8? (packed path) with
    | none => return .error (.cannotOpen path .notFound)
    | some name =>
      try
        let handle ← IO.FS.Handle.mk name .append
        seat (.ofHandle handle) (.ofFile 3 path)
      catch e => return .error (.cannotOpen path (systemError e))
  | .network host port => return .error (.cannotConnect host port .unreachable)
  | .standardOutput => seat (← IO.getStdout) .standardOutput

/-- Offer bytes to a sink that is open in the operating system. -/
def offerInSystem (console : Console) (sinks : IO.Ref (List OpenSink)) (sink : Sink)
    (data : Bytes) : IO Nat := do
  let known ← sinks.get
  match known[sink.id]? with
  | none => return 0
  | some target =>
    let answers : List SystemAnswer ←
      try
        target.stream.write (packed data)
        target.stream.flush
        pure []
      catch e => pure [.failed (systemError e)]
    let written := target.descriptor.write answers data
    sinks.set (known.set sink.id { target with descriptor := written.descriptor })
    if let some report := written.report then complain (console.shown report)
    return written.count

/-- The operating system as a host. -/
def systemHost (console : Console) (sinks : IO.Ref (List OpenSink)) : Host IO where
  partner := {
    offer := offerInSystem console sinks
    notify := fun
      | .released _ => pure ()
      | .diagnosed d => complain (console.shown d)
      | .said text => complain text }
  openSink := openInSystem sinks
  -- The standard library does not ask the operating system for it.
  pageSize := -1

/-- The variables of the environment. -/
def systemEnvironment : IO Environment := do
  let lookUp (name : String) : IO (Option Bytes) := return (← IO.getEnv name).map utf8
  return {
    level := ← lookUp "SCRIBE_LEVEL"
    bufferBytes := ← lookUp "SCRIBE_BUFFER_BYTES"
    debug := ← lookUp "SCRIBE_DEBUG" }

/-- The present instant. -/
def wallClock : IO Instant := do
  return Int64.ofInt (← Std.Time.Timestamp.now).toMillisecondsSinceUnixEpoch.toInt

/-- The bytes up to the last line feed and those behind it. -/
def splitLastLine (s : Bytes) : Bytes × Bytes :=
  let (after, before) := s.reverse.span fun b => b != Bytes.lineFeed
  (before.reverse, after.reverse)

/-- Relay the standard input as it arrives, and renew the stamp when its interval is over. -/
partial def pump (h : Host IO) (refreshed : Instant) (pending : Bytes) (r : Relay) :
    IO UInt8 := do
  let chunk := unpacked (← (← IO.getStdin).read 65536)
  let now ← wallClock
  let due := r.stamps.interval ≤ now - refreshed
  let r := if due then { r with stamps := r.stamps.refresh now } else r
  if chunk.isEmpty then (r.serve pending).run h.partner
  else
    let (complete, rest) := splitLastLine (pending ++ chunk)
    let r ← (r.feedAll (linesOf complete)).run h.partner
    if r.failed then r.finish.run h.partner
    else pump h (if due then now else refreshed) rest r

/-- Run the command with its arguments. -/
def runInSystem (arguments : List String) : IO UInt8 := do
  let environment ← systemEnvironment
  let sinks ← IO.mkRef []
  let h := systemHost environment.console sinks
  let now ← wallClock
  match ← launch h (arguments.map utf8) environment now with
  | .error status => return status
  | .ok relay => pump h now [] relay

end LeveledLog.Command

/-- The program. -/
def main (arguments : List String) : IO UInt32 := do
  return (← LeveledLog.Command.runInSystem arguments).toUInt32
