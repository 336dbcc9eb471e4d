import LeveledLog.Logger
import LeveledLog.Stamp

/-!
# Sessions

A session is a writer together with the clock and the stamp cache that its lines take their
stamps from. Requests act on it one after the other.
-/

namespace LeveledLog

/-- A writer with a clock and a stamp cache. -/
structure Session where
  clock : Instant
  stamps : StampCache
  writer : Writer
  deriving DecidableEq, Repr

/-- What can be asked of a session. -/
inductive Request where
  | write (level : Level) (message : Bytes)
  | writeFormatted (level : Level) (template : Bytes) (arguments : List Argument)
  /-- Write a message unless it is below the threshold. -/
  | log (level : Level) (message : Bytes)
  /-- Write a filled template unless it is below the threshold. -/
  | logFormatted (level : Level) (template : Bytes) (arguments : List Argument)
  | flush
  | resetDestination (destination : Option Sink)
  | close
  | setLevel (level : Level)
  | setClock (now : Instant)
  | refresh
  deriving DecidableEq, Repr

/-- What a request that does not fail returns. -/
inductive Reply where
  | nothing
  /-- The length of a line. -/
  | size (bytes : Nat)
  /-- Whether the destination took everything. -/
  | success (complete : Bool)
  deriving DecidableEq, Repr

namespace Session

/-- The result of a request together with the session after it. -/
abbrev Outcome := Except Fault Reply × Session

/-- The session after an operation of its writer. -/
def settle {α : Type} (s : Session) (reply : α → Reply) (outcome : Writer.Outcome α) : Outcome :=
  (outcome.1.map reply, { s with writer := outcome.2 })

/-- Act on a request. -/
def step (s : Session) : Request → Dialogue Outcome
  | .write level message => do
    return s.settle .size (← s.writer.write s.stamps.current level message)
  | .writeFormatted level template arguments => do
    return s.settle .size
      (← s.writer.writeFormatted s.stamps.current level template arguments)
  | .log level message => do
    return s.settle (fun _ => .nothing)
      (← (Logger.mk s.writer).log s.stamps.current level message)
  | .logFormatted level template arguments => do
    return s.settle (fun _ => .nothing)
      (← (Logger.mk s.writer).logFormatted s.stamps.current level template arguments)
  | .flush => do return s.settle .success (← s.writer.flush)
  | .resetDestination destination => do
    return s.settle .success (← s.writer.resetDestination destination)
  | .close => do
    let (complete, writer) ← s.writer.close
    return (.ok (.success complete), { s with writer })
  | .setLevel level => return (.ok .nothing, { s with writer := s.writer.setLevel level })
  | .setClock now => return (.ok .nothing, { s with clock := now })
  | .refresh => return (.ok .nothing, { s with stamps := s.stamps.refresh s.clock })

/-- Act on requests in order and collect the results. -/
def runAll (s : Session) : List Request → Dialogue (List (Except Fault Reply) × Session)
  | [] => return ([], s)
  | request :: rest => do
    let (result, s) ← s.step request
    let (results, s) ← s.runAll rest
    return (result :: results, s)

end Session

end LeveledLog
