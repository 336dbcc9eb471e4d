import LeveledLog.Writer

/-!
# Loggers

A logger is a handle on a writer that drops every message below the writer's threshold
before anything else is done with it. It has no state of its own.
-/

namespace LeveledLog

/-- A handle on a writer. -/
structure Logger where
  writer : Writer
  deriving DecidableEq, Repr

namespace Logger

/-- A logger over a writer, which must not be missing. -/
def attach (writer : Option Writer) : Except Fault Logger :=
  match writer with
  | none => .error .missingWriter
  | some writer => .ok ⟨writer⟩

/-- Whether messages of a level are written. -/
def isEnabled (l : Logger) (level : Level) : Bool := level.passes l.writer.level

/-- Write a message unless it is below the threshold. -/
def log (l : Logger) (stamp : Bytes) (level : Level) (message : Bytes) :
    Dialogue (Writer.Outcome Unit) :=
  if l.isEnabled level then do
    let (result, w) ← l.writer.write stamp level message
    return (result.map fun _ => (), w)
  else return (.ok (), l.writer)

/-- Write a filled template unless it is below the threshold. -/
def logFormatted (l : Logger) (stamp : Bytes) (level : Level) (template : Bytes)
    (arguments : List Argument) : Dialogue (Writer.Outcome Unit) :=
  if l.isEnabled level then do
    let (result, w) ← l.writer.writeFormatted stamp level template arguments
    return (result.map fun _ => (), w)
  else return (.ok (), l.writer)

end Logger

end LeveledLog
