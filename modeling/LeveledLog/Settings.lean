import LeveledLog.Dialogue
import LeveledLog.Level
import LeveledLog.Numeral

/-!
# Settings

A writer is set up with a threshold and a capacity. Both can be given by variables of the
environment. A value that makes no sense is reported and ignored.
-/

namespace LeveledLog

/-- How a writer is set up. -/
structure Settings where
  level : Level
  /-- The capacity of its buffer; zero stands for the default. -/
  capacity : Nat
  deriving DecidableEq, Repr

/-- The variables of the environment that the library reads; those that are not set are
`none`. -/
structure Environment where
  level : Option Bytes
  bufferBytes : Option Bytes
  /-- Switches reports for debugging on, whatever its value. -/
  debug : Option Bytes
  deriving DecidableEq, Repr

/-- The console of a program that runs in an environment. -/
def Environment.console (e : Environment) : Console := ⟨e.debug.isSome, false⟩

namespace Settings

/-- The size that pages of memory are taken to have on a host that does not tell it. -/
def fallbackPageSize : Nat := 4096

/-- The capacity when none is given: one page of memory. A host that does not tell the size of its
pages answers with no positive number. -/
def defaultCapacity (pageSize : Int64 := -1) : Nat :=
  if 0 < pageSize then pageSize.toNatClampNeg else fallbackPageSize

theorem defaultCapacity_pos (pageSize : Int64) : 0 < defaultCapacity pageSize := by
  unfold defaultCapacity
  split
  case isTrue h => exact Int.pos_iff_toNat_pos.mp (Int64.lt_iff_toInt_lt.mp h)
  case isFalse => decide

/-- A writer without any settings logs everything. -/
def default (pageSize : Int64 := -1) : Settings := ⟨.debug, defaultCapacity pageSize⟩

/-- The number of values of an unsigned 64-bit integer. -/
def wordValues : Nat := 0x10000000000000000

/-- An integer as an unsigned 64-bit one: the greatest one when it is too large, whatever its
sign, and its remainder when it is negative. -/
def wordOf (n : Numeral.Leading) : Nat :=
  if wordValues ≤ n.magnitude then wordValues - 1
  else if n.negative then (wordValues - n.magnitude) % wordValues
  else n.magnitude

/-- Read a capacity. The text ends with the digits and does not begin with a minus sign, and
the capacity is not zero. -/
def capacity? (s : Bytes) : Option Nat :=
  match Numeral.leading? s with
  | none => none
  | some n =>
    if n.rest.isEmpty ∧ wordOf n ≠ 0 ∧ s.head? ≠ some '-'.toUInt8 then some (wordOf n) else none

/-- Read a variable if it is set, and report a value that makes no sense. -/
def fromVariable {α : Type} (name : Bytes) (read? : Bytes → Option α) (otherwise : α) :
    Option Bytes → Dialogue α
  | none => return otherwise
  | some s =>
    match read? s with
    | some a => return a
    | none => do
      .report .warn (utf8 "WriterConfig: ignoring " ++ name ++ utf8 "=" ++ s)
      return otherwise

/-- The settings an environment asks for on a host with pages of a size. -/
def fromEnvironment (e : Environment) (pageSize : Int64 := -1) : Dialogue Settings := do
  let otherwise := default pageSize
  let level ← fromVariable (utf8 "SCRIBE_LEVEL") Level.ofName? otherwise.level e.level
  let capacity ←
    fromVariable (utf8 "SCRIBE_BUFFER_BYTES") capacity? otherwise.capacity e.bufferBytes
  return ⟨level, capacity⟩

end Settings

end LeveledLog
