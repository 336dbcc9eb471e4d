import LeveledLog.Diagnostic
import LeveledLog.Fault

/-!
# Descriptors

A descriptor writes to the operating system, which may take less than it is given or be
interrupted. Writing goes on where it stopped until all is taken or an error ends it. The
first error on a descriptor is reported; all of them are counted.
-/

namespace LeveledLog

/-- An answer of the operating system to a request to write. -/
inductive SystemAnswer where
  | took (count : Nat)
  | failed (cause : SystemError)
  deriving DecidableEq, Repr

/-- A request to the operating system to write, with its answer. -/
structure SystemCall where
  offered : Bytes
  answer : SystemAnswer
  deriving DecidableEq, Repr

/-- The course of one write. -/
structure Transfer where
  /-- What was asked of the operating system, in order. -/
  calls : List SystemCall
  /-- The sum of what it said to have taken. -/
  count : Nat
  /-- The error that ended the write, if one did. -/
  failure : Option SystemError
  deriving DecidableEq, Repr

namespace Transfer

/-- The transfer behind another call that took some bytes. -/
def behind (t : Transfer) (call : SystemCall) (count : Nat) : Transfer :=
  ⟨call :: t.calls, count + t.count, t.failure⟩

/-- Ask the operating system to write bytes until it has taken them all or failed. When it has
no more answers it takes everything. Taking nothing is a failure of the device, and after an
interruption the same is asked again. -/
def ofAnswers : List SystemAnswer → Bytes → Transfer
  | _, [] => ⟨[], 0, none⟩
  | [], data => ⟨[⟨data, .took data.length⟩], data.length, none⟩
  | .took 0 :: _, data => ⟨[⟨data, .took 0⟩], 0, some .inputOutput⟩
  | .took count :: rest, data =>
    (ofAnswers rest (data.drop count)).behind ⟨data, .took count⟩ count
  | .failed cause :: rest, data =>
    if cause.isInterruption then (ofAnswers rest data).behind ⟨data, .failed cause⟩ 0
    else ⟨[⟨data, .failed cause⟩], 0, some cause⟩

end Transfer

/-- A descriptor with its counts. -/
structure Descriptor where
  number : Nat
  /-- Whether it is closed when it is released. -/
  owned : Bool
  name : Bytes
  /-- The number of bytes ever taken. -/
  written : Nat
  failures : Nat
  deriving DecidableEq, Repr

/-- What a write to a descriptor comes to. -/
structure Descriptor.Written where
  /-- What was asked of the operating system, in order. -/
  calls : List SystemCall
  count : Nat
  descriptor : Descriptor
  /-- The report of the first error. -/
  report : Option Diagnostic
  deriving DecidableEq, Repr

namespace Descriptor

/-- A descriptor that was not written to. Its number must not be negative. -/
def create (number : Int) (owned : Bool) (name : Bytes) : Except Fault Descriptor :=
  if number < 0 then .error (.invalidDescriptor name) else .ok ⟨number.toNat, owned, name, 0, 0⟩

/-- The descriptor of an opened file. -/
def ofFile (number : Nat) (path : Bytes) : Descriptor := ⟨number, true, utf8 "file:" ++ path, 0, 0⟩

/-- The descriptor of the standard output. -/
def standardOutput : Descriptor := ⟨1, false, utf8 "stdout", 0, 0⟩

/-- The descriptor of the standard error output. -/
def standardError : Descriptor := ⟨2, false, utf8 "stderr", 0, 0⟩

/-- The report of the first error on a descriptor. -/
def failureReport (d : Descriptor) (cause : SystemError) : Diagnostic :=
  ⟨.warn, utf8 "[FdSink:" ++ d.name ++ utf8 "] first write failure fd=" ++
    Numeral.decimal d.number ++ utf8 ": " ++ cause.message⟩

/-- Count a write, and report its error if it is the first. -/
def account (d : Descriptor) (t : Transfer) : Written :=
  let after := { d with written := d.written + t.count }
  match t.failure with
  | none => ⟨t.calls, t.count, after, none⟩
  | some cause =>
    ⟨t.calls, t.count, { after with failures := d.failures + 1 },
      if d.failures = 0 then some (d.failureReport cause) else none⟩

/-- Write bytes to a descriptor while the operating system gives the answers. -/
def write (d : Descriptor) (answers : List SystemAnswer) (data : Bytes) : Written :=
  d.account (.ofAnswers answers data)

end Descriptor

end LeveledLog
