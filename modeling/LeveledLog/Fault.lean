import LeveledLog.Format.Fault
import LeveledLog.SystemError

/-!
# Faults

Every reason for which an operation of the library is refused or fails, one constructor a
cause, and the message that reports each.
-/

namespace LeveledLog

/-- The operations of a writer that need it to be open. -/
inductive Operation where
  | write
  | writeFormatted
  | flush
  | resetDestination
  deriving DecidableEq, Repr

/-- The name by which messages call an operation. -/
def Operation.name : Operation → Bytes
  | write => utf8 "Write"
  | writeFormatted => utf8 "WriteFormatted"
  | flush => utf8 "Flush"
  | resetDestination => utf8 "ResetDestination"

/-- A reason to refuse an operation, or for its failure. -/
inductive Fault where
  | format (fault : FormatFault)
  /-- A destination took too little while room was made for a line. -/
  | sinkFailed (destination : Bytes) (delivered : Bool)
  | closed (operation : Operation)
  | missingDestination
  | missingStamps
  | missingWriter
  | missingSink
  | noCapacity
  | missingMemory
  | missingClock
  /-- A descriptor has a negative number. -/
  | invalidDescriptor (name : Bytes)
  | cannotOpen (path : Bytes) (cause : SystemError)
  | cannotConnect (host : Bytes) (port : Nat) (cause : SystemError)
  /-- A capacity is beyond the size of any block of memory, as the allocator reports it. -/
  | oversizedBlock
  /-- There is no memory for a capacity, as the allocator reports it. -/
  | outOfMemory
  deriving DecidableEq, Repr

namespace Fault

/-- The message of a fault. -/
def message : Fault → Bytes
  | format f => f.message
  | sinkFailed destination delivered =>
    utf8 "FormattingWriter: destination " ++ destination ++
      utf8 " failed while draining the buffer" ++
      if delivered then utf8 "; part of the line was delivered" else []
  | closed operation => operation.name ++ utf8 " called on a closed FormattingWriter"
  | missingDestination => utf8 "FormattingWriter: destination must not be null"
  | missingStamps => utf8 "FormattingWriter: timestamp cache must not be null"
  | missingWriter => utf8 "Log: writer must not be null"
  | missingSink => utf8 "BufferedStream: sink must not be null"
  | noCapacity => utf8 "BufferedStream: capacity must be positive"
  | missingMemory => utf8 "MemorySink: buffer must not be null"
  | missingClock => utf8 "TimestampCache: time source must not be null"
  | invalidDescriptor name => utf8 "FdSink: invalid descriptor for " ++ name
  | cannotOpen path cause => utf8 "FdSink: cannot open " ++ path ++ utf8 ": " ++ cause.message
  | cannotConnect host port cause =>
    utf8 "FdSink: cannot connect to " ++ host ++ utf8 ":" ++ Numeral.decimal port ++
      utf8 ": " ++ cause.message
  | oversizedBlock => utf8 "vector::_M_default_append"
  | outOfMemory => utf8 "std::bad_alloc"

end Fault

end LeveledLog
