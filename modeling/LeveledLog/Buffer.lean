import LeveledLog.Dialogue
import LeveledLog.Fault

/-!
# Buffers

A buffer holds bytes for a sink up to a capacity. What does not fit drains it first, and what
is as large as the whole buffer goes straight through it. What a sink does not take stays
held. The counts of all bytes ever appended and drained let a caller undo what it appended
since a mark, as far as it is still held.
-/

namespace LeveledLog

/-- Bytes held for a sink. -/
structure Buffer where
  sink : Sink
  capacity : Nat
  /-- The bytes held, oldest first. -/
  held : Bytes
  /-- The number of bytes ever appended, less what was undone. -/
  appended : Nat
  /-- The number of bytes that have left the buffer at its front. -/
  drained : Nat
  deriving DecidableEq, Repr

namespace Buffer

/-- An empty buffer for a sink. -/
def empty (sink : Sink) (capacity : Nat) : Buffer := ⟨sink, capacity, [], 0, 0⟩

/-- An empty buffer, which needs a sink and some capacity. -/
def create (sink : Option Sink) (capacity : Nat) : Except Fault Buffer :=
  match sink with
  | none => .error .missingSink
  | some sink => if capacity = 0 then .error .noCapacity else .ok (empty sink capacity)

/-- The number of bytes held. -/
def buffered (b : Buffer) : Nat := b.held.length

/-- The number of bytes there is room for. -/
def available (b : Buffer) : Nat := b.capacity - b.buffered

/-- Offer everything held to the sink. True when it took all of it; the rest stays held. -/
def flush (b : Buffer) : Dialogue (Bool × Buffer) :=
  if b.held.isEmpty then return (true, b)
  else do
    let n ← .deliver b.sink b.held
    return (n == b.buffered, { b with held := b.held.drop n, drained := b.drained + n })

/-- Offer bytes to the sink past the buffer, which is empty. True when it took all of them. -/
def passThrough (b : Buffer) (data : Bytes) : Dialogue (Bool × Buffer) := do
  let n ← .deliver b.sink data
  return (n == data.length, { b with appended := b.appended + n, drained := b.drained + n })

/-- Put bytes behind those held. -/
def hold (b : Buffer) (data : Bytes) : Buffer :=
  { b with held := b.held ++ data, appended := b.appended + data.length }

/-- Drain the buffer when the bytes do not fit. -/
def makeRoom (b : Buffer) (data : Bytes) : Dialogue (Bool × Buffer) :=
  if b.available < data.length then b.flush else return (true, b)

/-- Append bytes. False when the sink took too little: then none of the bytes is held, and
only bytes that went past the buffer may have been taken. -/
def append (b : Buffer) (data : Bytes) : Dialogue (Bool × Buffer) :=
  if data.isEmpty then return (true, b)
  else do
    let (roomy, b) ← b.makeRoom data
    if !roomy then return (false, b)
    else if b.capacity ≤ data.length then b.passThrough data
    else return (true, b.hold data)

/-- Append a single byte. -/
def appendByte (b : Buffer) (byte : UInt8) : Dialogue (Bool × Buffer) := b.append [byte]

/-- Append parts one after the other, up to the first that fails or could not be made. True
when all of them are appended. -/
def appendAll (b : Buffer) : List (Except FormatFault Bytes) →
    Dialogue (Except FormatFault Bool × Buffer)
  | [] => return (.ok true, b)
  | .error fault :: _ => return (.error fault, b)
  | .ok part :: rest => do
    let (done, b) ← b.append part
    if done then b.appendAll rest else return (.ok false, b)

/-- Give up what is held and turn to another sink, which must not be missing. -/
def reset (b : Buffer) (sink : Option Sink) : Except Fault Buffer :=
  match sink with
  | none => .error .missingSink
  | some sink => .ok { b with sink, held := [], drained := b.drained + b.buffered }

/-- The present end of the bytes appended, for undoing what is appended after it. -/
def mark (b : Buffer) : Nat := b.appended

/-- Undo what was appended after a mark. True when all of it was still held; otherwise
everything held is younger than the mark and is dropped. -/
def rollback (b : Buffer) (mark : Nat) : Bool × Buffer :=
  if b.drained ≤ mark then
    (true, { b with held := b.held.take (mark - b.drained), appended := min mark b.appended })
  else (false, { b with held := [], appended := b.appended - b.buffered })

end Buffer

end LeveledLog
