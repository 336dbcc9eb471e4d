import LeveledLog.Bytes

/-!
# Levels

A level is a rank; the six named ranks are the severities in rising order. A threshold lets
through every level that is not below it.
-/

namespace LeveledLog

/-- The severity of a message by its rank. Ranks above the named ones have no name of their own. -/
structure Level where
  rank : UInt8
  deriving DecidableEq, Repr

namespace Level

/-- The least severe level. -/
def debug : Level := ⟨0⟩

/-- Progress of interest to a reader who follows single steps. -/
def trace : Level := ⟨1⟩

/-- Ordinary messages. -/
def info : Level := ⟨2⟩

/-- Something unexpected that was dealt with. -/
def warn : Level := ⟨3⟩

/-- A failure. -/
def error : Level := ⟨4⟩

/-- The most severe level. -/
def critical : Level := ⟨5⟩

/-- The named levels in rising order. -/
def all : List Level := [debug, trace, info, warn, error, critical]

/-- The name of a level in capital letters. -/
def name (l : Level) : Bytes :=
  if l = debug then utf8 "DEBUG"
  else if l = trace then utf8 "TRACE"
  else if l = info then utf8 "INFO"
  else if l = warn then utf8 "WARN"
  else if l = error then utf8 "ERROR"
  else if l = critical then utf8 "CRITICAL"
  else utf8 "UNKNOWN"

/-- What stands in front of the body of a line: the name in brackets and a blank. -/
def tag (l : Level) : Bytes := utf8 "[" ++ l.name ++ utf8 "] "

/-- The level with the given name, in letters of any case; `warning` is another name of `warn`. -/
def ofName? (s : Bytes) : Option Level :=
  match all.find? fun l => Bytes.sameLetters s l.name with
  | some l => some l
  | none => if Bytes.sameLetters s (utf8 "WARNING") then some warn else none

/-- Whether a message at level `l` passes the threshold. -/
def passes (l threshold : Level) : Bool := threshold.rank ≤ l.rank

/-- The order of levels is that of their ranks. -/
theorem passes_iff {l threshold : Level} : l.passes threshold = true ↔ threshold.rank ≤ l.rank :=
  decide_eq_true_iff

end Level

end LeveledLog
