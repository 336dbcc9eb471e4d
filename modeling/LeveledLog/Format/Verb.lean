import LeveledLog.Argument

/-!
# Verbs

A verb is the byte that closes a placeholder and chooses how its argument is rendered. Each
verb accepts the arguments of some kinds only.
-/

namespace LeveledLog

/-- The ways to render an argument. -/
inductive Verb where
  | decimal
  | fixed
  /-- The default form of the kind, written `v`. -/
  | default
  | binary
  | octal
  | pointer
  | hex
  | hexUpper
  | char
  | bool
  | text
  /-- The name of the kind, written `T`. -/
  | type
  | quoted
  | unicode
  | scientific
  | scientificUpper
  | general
  | generalUpper
  deriving DecidableEq, Repr

namespace Verb

/-- Every verb. -/
def all : List Verb :=
  [decimal, fixed, default, binary, octal, pointer, hex, hexUpper, char, bool, text, type,
    quoted, unicode, scientific, scientificUpper, general, generalUpper]

/-- The letter that writes a verb. -/
def letter : Verb → Char
  | decimal => 'd'
  | fixed => 'f'
  | default => 'v'
  | binary => 'b'
  | octal => 'o'
  | pointer => 'p'
  | hex => 'x'
  | hexUpper => 'X'
  | char => 'c'
  | bool => 't'
  | text => 's'
  | type => 'T'
  | quoted => 'q'
  | unicode => 'U'
  | scientific => 'e'
  | scientificUpper => 'E'
  | general => 'g'
  | generalUpper => 'G'

/-- The byte that writes a verb. -/
def byte (v : Verb) : UInt8 := v.letter.toUInt8

/-- The verb written by a byte. -/
def ofByte? (b : UInt8) : Option Verb := all.find? fun v => v.byte == b

/-- Whether a byte writes a verb. -/
def isVerb (b : UInt8) : Bool := (ofByte? b).isSome

/-- A verb's byte writes that verb. -/
theorem ofByte?_byte (v : Verb) : ofByte? v.byte = some v := by cases v <;> decide

/-- The kinds of arguments a verb renders. -/
def accepts : Verb → Kind → Bool
  | default, _ | text, _ | type, _ => true
  | bool, k => k == .bool
  | decimal, k | binary, k | octal, k => k == .int || k == .uint || k == .char || k == .duration
  | hex, k | hexUpper, k => k != .bool
  | char, k | unicode, k => k == .int || k == .uint || k == .char
  | quoted, k => k == .int || k == .uint || k == .char || k == .string
  | scientific, k | scientificUpper, k | fixed, k | general, k | generalUpper, k =>
    k == .float || k == .int || k == .uint
  | pointer, k => k == .pointer

end Verb

end LeveledLog
