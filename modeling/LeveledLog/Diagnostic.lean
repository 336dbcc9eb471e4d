import LeveledLog.Bytes

/-!
# Diagnostics

The library reports its own troubles on a console, apart from the lines it writes for its
callers. Reports for debugging are shown only on demand. An observer, if there is one, gets
every report that is not for debugging.
-/

namespace LeveledLog

/-- How serious a report is. -/
inductive Severity where
  /-- Of use when the library itself is examined. -/
  | debug
  /-- Something failed and nothing is lost. -/
  | warn
  /-- Something is lost. -/
  | error
  deriving DecidableEq, Repr

/-- The name of a severity in capital letters. -/
def Severity.name : Severity → Bytes
  | debug => utf8 "DEBUG"
  | warn => utf8 "WARN"
  | error => utf8 "ERROR"

/-- A report of the library on itself. -/
structure Diagnostic where
  severity : Severity
  line : Bytes
  deriving DecidableEq, Repr

/-- A report as a line of the console. -/
def Diagnostic.text (d : Diagnostic) : Bytes :=
  utf8 "[scribe " ++ d.severity.name ++ utf8 "] " ++ d.line ++ [Bytes.lineFeed]

/-- Where reports go. -/
structure Console where
  debugging : Bool
  observed : Bool
  deriving DecidableEq, Repr

namespace Console

/-- What the console shows of a report. -/
def shown (c : Console) (d : Diagnostic) : Bytes :=
  if d.severity = .debug ∧ c.debugging = false then [] else d.text

/-- What the observer gets of a report. -/
def captured (c : Console) (d : Diagnostic) : List Bytes :=
  if c.observed ∧ d.severity ≠ .debug then [d.line] else []

end Console

end LeveledLog
