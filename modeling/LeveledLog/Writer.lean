import LeveledLog.Buffer
import LeveledLog.Line
import LeveledLog.Settings

/-!
# Writers

A writer turns messages into lines and appends them to a buffer before its destination. A
line that cannot be appended is taken back as far as it is still held. The destination is
changed between lines, when everything held has gone to the old one. A closed writer has no
buffer and refuses everything but another closing.
-/

namespace LeveledLog

/-- A writer. -/
structure Writer where
  level : Level
  capacity : Nat
  /-- The buffer before the destination; none once the writer is closed. -/
  stream : Option Buffer
  deriving DecidableEq, Repr

namespace Writer

/-- The result of an operation together with the writer after it. -/
abbrev Outcome (α : Type) := Except Fault α × Writer

/-- A writer for a destination on a host with pages of a size. It must have a destination and
stamps; without stamps the destination is released. -/
def create (destination : Option Sink) (stamped : Bool) (settings : Settings)
    (pageSize : Int64 := -1) : Dialogue (Except Fault Writer) :=
  match destination with
  | none => return .error .missingDestination
  | some sink =>
    if !stamped then do
      .tell (.released sink)
      return .error .missingStamps
    else
      let capacity :=
        if settings.capacity = 0 then Settings.defaultCapacity pageSize else settings.capacity
      return .ok ⟨settings.level, capacity, some (.empty sink capacity)⟩

/-- Whether the writer is closed. -/
def isClosed (w : Writer) : Bool := w.stream.isNone

/-- The number of bytes held. -/
def buffered (w : Writer) : Nat := w.stream.elim 0 Buffer.buffered

/-- The destination, while the writer is open. -/
def destination? (w : Writer) : Option Sink := w.stream.map Buffer.sink

/-- The name of the destination, empty once the writer is closed. -/
def destinationName (w : Writer) : Bytes := w.destination?.elim [] Sink.name

/-- Another threshold. -/
def setLevel (w : Writer) (level : Level) : Writer := { w with level }

/-- The writer with another buffer. -/
def withStream (w : Writer) (b : Buffer) : Writer := { w with stream := some b }

/-- Append a line in parts and return its length. When the destination fails or a part could
not be made, what is still held of the line is taken back. -/
def emit (w : Writer) (b : Buffer) (parts : List (Except FormatFault Bytes)) :
    Dialogue (Outcome Nat) := do
  let (outcome, after) ← b.appendAll parts
  let (clean, restored) := after.rollback b.mark
  match outcome with
  | .ok true => return (.ok (Line.textOf parts).length, w.withStream after)
  | .ok false => return (.error (.sinkFailed restored.sink.name !clean), w.withStream restored)
  | .error fault => return (.error (.format fault), w.withStream restored)

/-- Write a message as one line. -/
def write (w : Writer) (stamp : Bytes) (level : Level) (message : Bytes) :
    Dialogue (Outcome Nat) :=
  match w.stream with
  | none => return (.error (.closed .write), w)
  | some b => w.emit b (Line.parts stamp level [.ok message])

/-- Write a filled template as one line. The template is checked against its arguments before
anything is appended. -/
def writeFormatted (w : Writer) (stamp : Bytes) (level : Level) (template : Bytes)
    (arguments : List Argument) : Dialogue (Outcome Nat) :=
  match w.stream with
  | none => return (.error (.closed .writeFormatted), w)
  | some b =>
    match Line.check template arguments with
    | .error fault => return (.error (.format fault), w)
    | .ok () => w.emit b (Line.parts stamp level (Line.bodyParts template arguments))

/-- Offer everything held to the destination. True when it took all of it. -/
def flush (w : Writer) : Dialogue (Outcome Bool) :=
  match w.stream with
  | none => return (.error (.closed .flush), w)
  | some b => do
    let (done, b) ← b.flush
    return (.ok done, w.withStream b)

/-- The report of a destination that is kept because it did not take everything. -/
def keepingReport (b : Buffer) (refused : Sink) : Bytes :=
  utf8 "FormattingWriter: keeping " ++ b.sink.name ++ utf8 ", " ++
    Numeral.decimal b.buffered ++ utf8 " bytes could not be flushed before switching to " ++
    refused.name

/-- Turn to another destination when the present one has taken everything held. The one that
is not used any more is released, be it the old one or the new one. -/
def resetDestination (w : Writer) (destination : Option Sink) : Dialogue (Outcome Bool) :=
  match destination, w.stream with
  | none, _ => return (.error .missingDestination, w)
  | some sink, none => do
    .tell (.released sink)
    return (.error (.closed .resetDestination), w)
  | some sink, some b => do
    let (done, b) ← b.flush
    if done then
      .tell (.released b.sink)
      return (.ok true, w.withStream { b with sink })
    else
      .report .warn (keepingReport b sink)
      .tell (.released sink)
      return (.ok false, w.withStream b)

/-- The report of bytes that are lost by closing. -/
def droppedReport (b : Buffer) : Bytes :=
  utf8 "FormattingWriter: dropped " ++ Numeral.decimal b.buffered ++
    utf8 " buffered bytes closing " ++ b.sink.name

/-- Offer everything held to the destination for the last time and release it. True when
nothing is lost. -/
def close (w : Writer) : Dialogue (Bool × Writer) :=
  match w.stream with
  | none => return (true, w)
  | some b => do
    let (done, b) ← b.flush
    if !done then .report .error (droppedReport b)
    .tell (.released b.sink)
    return (done, { w with stream := none })

end Writer

end LeveledLog
