import LeveledLog.Duration

/-!
# Arguments

An argument is one typed value to be rendered by a placeholder. Its kind decides which verbs
apply to it and what the type verb prints.
-/

namespace LeveledLog

/-- The kinds of arguments. -/
inductive Kind where
  | bool
  | int
  | uint
  | float
  /-- Single bytes taken as characters. -/
  | char
  | string
  | pointer
  | duration
  deriving DecidableEq, Repr

/-- The name of a kind as messages and the type verb print it. -/
def Kind.name : Kind → Bytes
  | bool => utf8 "bool"
  | int => utf8 "int64"
  | uint => utf8 "uint64"
  | float => utf8 "float64"
  | char => utf8 "char"
  | string => utf8 "string"
  | pointer => utf8 "pointer"
  | duration => utf8 "duration"

/-- A typed value. -/
inductive Argument where
  | bool (value : Bool)
  | int (value : Int64)
  | uint (value : UInt64)
  | float (value : Binary64)
  | char (value : UInt8)
  | string (value : Bytes)
  | pointer (address : UInt64)
  | duration (value : Duration)
  deriving DecidableEq, Repr

namespace Argument

/-- The kind of an argument. -/
def kind : Argument → Kind
  | bool _ => .bool
  | int _ => .int
  | uint _ => .uint
  | float _ => .float
  | char _ => .char
  | string _ => .string
  | pointer _ => .pointer
  | duration _ => .duration

/-- Text that ends before its first zero byte, or the mark of a text that is absent. -/
def ofTerminated (s : Option Bytes) : Argument :=
  .string (match s with
    | some s => Bytes.beforeZero s
    | none => utf8 "(null)")

end Argument

end LeveledLog
