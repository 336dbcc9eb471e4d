import LeveledLog.Rendering.Layout
import LeveledLog.Word

/-!
# Integers

An integer is written as a sign, a prefix that names its base in the alternate form, and digits.
The precision is a least number of digits, and it switches the zero flag off.
-/

namespace LeveledLog

/-- The bases integers are written in. -/
inductive Radix where
  | binary
  | octal
  | decimal
  | hexadecimal
  deriving DecidableEq, Repr

namespace Radix

/-- The number of digits of the base. -/
def base : Radix → Nat
  | binary => 2
  | octal => 8
  | decimal => 10
  | hexadecimal => 16

/-- The prefix of the alternate form. Octal numbers have a zero digit instead. -/
def mark (upper : Bool) : Radix → Bytes
  | binary => utf8 "0b"
  | hexadecimal => utf8 (if upper then "0X" else "0x")
  | octal | decimal => []

/-- The base a verb asks for. -/
def ofVerb : Verb → Radix
  | .binary => binary
  | .octal => octal
  | .hex | .hexUpper => hexadecimal
  | _ => decimal

end Radix

/-- The sign of a number: a minus when it is negative, otherwise what the flags ask for. -/
def Spec.sign (spec : Spec) (negative : Bool) : Bytes :=
  if negative then utf8 "-"
  else if spec.plus then utf8 "+"
  else if spec.space then utf8 " "
  else []

namespace Rendering

/-- At least as many digits as the precision asks for. Zero has none when that is none. -/
def leastDigits (precision : Option Nat) (radix : Radix) (upper : Bool) (magnitude : Nat) : Bytes :=
  Numeral.zeroPad (precision.getD 0) <|
    if magnitude = 0 ∧ precision = some 0 then [] else Numeral.text radix.base upper magnitude

/-- The digits with a zero in front of them unless there is one. -/
def leadingZero (digits : Bytes) : Bytes :=
  if digits.head? = some '0'.toUInt8 then digits else '0'.toUInt8 :: digits

/-- The digits of an integer. The alternate form of octal digits begins with a zero. -/
def integerDigits (spec : Spec) (radix : Radix) (upper : Bool) (magnitude : Nat) : Bytes :=
  let digits := leastDigits spec.precision radix upper magnitude
  if spec.sharp && radix == .octal then leadingZero digits else digits

/-- An integer in a base. -/
def integer (spec : Spec) (radix : Radix) (upper negative : Bool) (magnitude : Nat) :
    Rendering where
  lead := spec.sign negative ++ if spec.sharp then radix.mark upper else []
  rest := integerDigits spec radix upper magnitude
  zeroFill := spec.precision.isNone
  isNumber := true

/-- A word in the base of the verb. -/
def word (spec : Spec) (w : Word) : Rendering :=
  integer spec (.ofVerb spec.verb) (spec.verb == .hexUpper) w.negative w.magnitude.toNat

/-- An address in base sixteen. It has no sign. The hexadecimal verbs write the prefix in the
alternate form only, all others in every form but that. -/
def address (spec : Spec) (p : UInt64) : Rendering :=
  let isHex := spec.verb == .hex || spec.verb == .hexUpper
  integer
    { spec with plus := false, space := false, sharp := if isHex then spec.sharp else !spec.sharp }
    .hexadecimal (spec.verb == .hexUpper) false p.toNat

end Rendering

end LeveledLog
