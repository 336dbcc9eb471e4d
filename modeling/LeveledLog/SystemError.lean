import LeveledLog.Numeral

/-!
# Errors of the operating system

The reasons the operating system gives for refusing to open or to write, with the number and
the text by which they are reported.
-/

namespace LeveledLog

/-- A reason given by the operating system. -/
inductive SystemError where
  /-- The file or one of the directories on the way to it does not exist. -/
  | notFound
  /-- A signal came before anything was done. -/
  | interrupted
  /-- The device failed, or took nothing without saying why. -/
  | inputOutput
  /-- The descriptor is not open for writing. -/
  | badDescriptor
  | permissionDenied
  /-- A file stands where a directory is needed. -/
  | notADirectory
  /-- A directory stands where a file is needed. -/
  | isADirectory
  | noSpace
  | brokenPipe
  | nameTooLong
  | notASocket
  | unreachable
  /-- A reason that has no name here, with its number and its words. -/
  | other (number : Nat) (words : Bytes)
  deriving DecidableEq, Repr

namespace SystemError

/-- The number of an error. -/
def code : SystemError → Nat
  | notFound => 2
  | interrupted => 4
  | inputOutput => 5
  | badDescriptor => 9
  | permissionDenied => 13
  | notADirectory => 20
  | isADirectory => 21
  | noSpace => 28
  | brokenPipe => 32
  | nameTooLong => 36
  | notASocket => 88
  | unreachable => 101
  | other number _ => number

/-- Every error that has a name. -/
def all : List SystemError :=
  [notFound, interrupted, inputOutput, badDescriptor, permissionDenied, notADirectory,
    isADirectory, noSpace, brokenPipe, nameTooLong, notASocket, unreachable]

/-- The error with a number. -/
def ofCode? (code : Nat) : Option SystemError := all.find? fun e => e.code == code

/-- Numbers tell the errors apart that have a name. -/
theorem ofCode?_code : ∀ e ∈ all, ofCode? e.code = some e := by decide

/-- Whether what failed may be tried again at once. -/
def isInterruption (e : SystemError) : Bool := e.code == interrupted.code

/-- The words for an error. -/
def reason : SystemError → Bytes
  | notFound => utf8 "No such file or directory"
  | interrupted => utf8 "Interrupted system call"
  | inputOutput => utf8 "Input/output error"
  | badDescriptor => utf8 "Bad file descriptor"
  | permissionDenied => utf8 "Permission denied"
  | notADirectory => utf8 "Not a directory"
  | isADirectory => utf8 "Is a directory"
  | noSpace => utf8 "No space left on device"
  | brokenPipe => utf8 "Broken pipe"
  | nameTooLong => utf8 "File name too long"
  | notASocket => utf8 "Socket operation on non-socket"
  | unreachable => utf8 "Network is unreachable"
  | other _ words => words

/-- The report of an error: its words and its number. -/
def message (e : SystemError) : Bytes :=
  e.reason ++ utf8 " (errno=" ++ Numeral.decimal e.code ++ utf8 ")"

end SystemError

end LeveledLog
