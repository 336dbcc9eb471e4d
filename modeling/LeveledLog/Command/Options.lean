import LeveledLog.Level
import LeveledLog.Numeral

/-!
# Options of the command

The arguments of the command are read from left to right. The first that makes no sense is
reported; a call for help that stands before it wins.
-/

namespace LeveledLog.Command

/-- What the arguments ask for. An empty path or host stands for none. -/
structure Options where
  path : Bytes
  host : Bytes
  port : Nat
  level : Level
  /-- Whether every line is flushed at once. -/
  flushEachLine : Bool
  deriving DecidableEq, Repr

namespace Options

/-- What the command does without arguments. -/
def default : Options := ⟨[], [], 0, .info, false⟩

end Options

/-- A reason to refuse the arguments. -/
inductive OptionFault where
  | endpointForm (given : Bytes)
  | invalidPort (given : Bytes)
  | unknownLevel (given : Bytes)
  /-- There is no such option, or it lacks its value. -/
  | unknownArgument (given : Bytes)
  | exclusive
  deriving DecidableEq, Repr

/-- The message of a fault in the arguments. -/
def OptionFault.message : OptionFault → Bytes
  | endpointForm given => utf8 "--tcp expects HOST:PORT, got " ++ given
  | invalidPort given => utf8 "invalid port in " ++ given
  | unknownLevel given => utf8 "unknown level: " ++ given
  | unknownArgument given => utf8 "unknown argument: " ++ given
  | exclusive => utf8 "--file and --tcp are mutually exclusive"

/-- What the arguments come to. -/
inductive Invocation where
  | help
  | refuse (fault : OptionFault)
  | work (options : Options)
  deriving DecidableEq, Repr

/-- The byte between the host and the port of an endpoint. -/
def colon : UInt8 := ':'.toUInt8

/-- The part of a text before its last colon and the part behind it. -/
def splitLastColon (s : Bytes) : Option (Bytes × Bytes) :=
  match s.reverse.span fun b => b != colon with
  | (after, _ :: before) => some (before.reverse, after.reverse)
  | (_, []) => none

/-- The greatest number of a port. -/
def maxPort : Nat := 65535

/-- The port at the front of a text; what follows its digits is not looked at. -/
def port? (s : Bytes) : Option Nat :=
  match Numeral.leading? s with
  | some ⟨false, n, _⟩ => if 0 < n ∧ n ≤ maxPort then some n else none
  | _ => none

/-- Read an endpoint. -/
def endpoint (s : Bytes) : Except OptionFault (Bytes × Nat) :=
  match splitLastColon s with
  | none => .error (.endpointForm s)
  | some (host, portText) =>
    if host.isEmpty || portText.isEmpty then .error (.endpointForm s)
    else match port? portText with
      | none => .error (.invalidPort s)
      | some port => .ok (host, port)

/-- Whether an argument asks for help. -/
def isHelp (argument : Bytes) : Bool := argument == utf8 "--help" || argument == utf8 "-h"

/-- Take up an option that stands alone. -/
def withFlag (o : Options) (argument : Bytes) : Except OptionFault Options :=
  if argument == utf8 "--flush-each-line" then .ok { o with flushEachLine := true }
  else .error (.unknownArgument argument)

/-- Take up an option with its value. There is none when the argument is not such an option. -/
def withValue? (o : Options) (argument value : Bytes) : Option (Except OptionFault Options) :=
  if argument == utf8 "--file" then some (.ok { o with path := value })
  else if argument == utf8 "--tcp" then
    some ((endpoint value).map fun (host, port) => { o with host, port })
  else if argument == utf8 "--level" then
    some <| match Level.ofName? value with
      | none => .error (.unknownLevel value)
      | some level => .ok { o with level }
  else none

/-- The invocation when all arguments have been read. -/
def complete (o : Options) : Invocation :=
  if !o.path.isEmpty && !o.host.isEmpty then .refuse .exclusive else .work o

/-- Read the remaining arguments. -/
def readFrom (o : Options) : List Bytes → Invocation
  | [] => complete o
  | [argument] =>
    if isHelp argument then .help
    else match withFlag o argument with
      | .error fault => .refuse fault
      | .ok o => complete o
  | argument :: value :: rest =>
    if isHelp argument then .help
    else match withValue? o argument value with
      | some (.error fault) => .refuse fault
      | some (.ok o) => readFrom o rest
      | none =>
        match withFlag o argument with
        | .error fault => .refuse fault
        | .ok o => readFrom o (value :: rest)

/-- Read the arguments of the command. -/
def read (arguments : List Bytes) : Invocation := readFrom .default arguments

/-- The name of the command. -/
def name : Bytes := utf8 "scribe_cat"

/-- What the command says about one trouble. -/
def complaint (message : Bytes) : Bytes :=
  utf8 "[" ++ name ++ utf8 "] " ++ message ++ [Bytes.lineFeed]

/-- How the command is used. -/
def usage : Bytes :=
  utf8 "Usage: " ++ name ++ utf8 " [OPTIONS]

Writes each stdin line as a leveled, timestamped log line.

DESTINATION (default: stdout):
  --file PATH          Append to PATH
  --tcp HOST:PORT      Stream to a TCP listener

OPTIONS:
  --level NAME         Level of emitted lines (default: info)
  --flush-each-line    Flush after every line instead of when the buffer fills
  --help               Show this help message

ENVIRONMENT:
  SCRIBE_LEVEL         Threshold; lines below it are dropped
  SCRIBE_BUFFER_BYTES  Buffer capacity (default: page size)
"

end LeveledLog.Command
