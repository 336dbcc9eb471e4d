import LeveledLog.Format.Fault

/-!
# Placeholder specifications

A placeholder is a percent sign, flags, an optional width, an optional precision behind a
point, and a verb. Backslashes inside it are escapes of the template and mean nothing here.
-/

namespace LeveledLog

open Numeral (isDigit value)

/-- The meaning of a placeholder. -/
structure Spec where
  /-- How the argument is rendered. -/
  verb : Verb
  /-- Pad on the right. -/
  minus : Bool := false
  /-- Write a sign before numbers that are not negative. -/
  plus : Bool := false
  /-- The alternate form of the verb. -/
  sharp : Bool := false
  /-- Leave a blank where a plus sign would stand. -/
  space : Bool := false
  /-- Pad with zeros. -/
  zero : Bool := false
  /-- The least number of runes to fill. -/
  width : Option Nat := none
  /-- Digits after the point, digits of an integer, or runes of a text. -/
  precision : Option Nat := none
  deriving DecidableEq, Repr

namespace Spec

/-- The byte that opens a placeholder. -/
def percent : UInt8 := '%'.toUInt8

/-- The byte between width and precision. -/
def point : UInt8 := '.'.toUInt8

/-- The greatest number of digits in a width or a precision. -/
def maxDigits : Nat := 6

/-- Whether a byte is a flag. -/
def isFlag (b : UInt8) : Bool := (utf8 "-+# 0").contains b

/-- The value of a run of digits that is not too long. -/
def number (placeholder digits : Bytes) : Except FormatFault Nat :=
  if digits.length ≤ maxDigits then .ok (value digits) else .error (.oversized placeholder)

/-- The width at the front of the modifiers behind the flags, if there is one. -/
def readWidth (placeholder rest : Bytes) : Except FormatFault (Option Nat) :=
  match rest.takeWhile isDigit with
  | [] => .ok none
  | digits => (number placeholder digits).map some

/-- The precision at the end of the modifiers: a point and the digits behind it, none of
them meaning zero. Nothing may be left over. -/
def readPrecision (placeholder rest : Bytes) : Except FormatFault (Option Nat) :=
  match rest with
  | [] => .ok none
  | b :: digits =>
    if b != point then .error (.unsupported b placeholder)
    else do
      let precision ← number placeholder (digits.takeWhile isDigit)
      match digits.dropWhile isDigit with
      | [] => .ok (some precision)
      | b :: _ => .error (.unsupported b placeholder)

/-- Read the modifiers between the percent sign and the verb. Padding on the right cancels
padding with zeros. -/
def ofModifiers (placeholder : Bytes) (verb : Verb) (modifiers : Bytes) :
    Except FormatFault Spec := do
  let flags := modifiers.takeWhile isFlag
  let rest := modifiers.dropWhile isFlag
  let width ← readWidth placeholder rest
  let precision ← readPrecision placeholder (rest.dropWhile isDigit)
  let has (c : Char) : Bool := flags.contains c.toUInt8
  return {
    verb
    minus := has '-'
    plus := has '+'
    sharp := has '#'
    space := has ' '
    zero := has '0' && !has '-'
    width
    precision }

/-- Read a placeholder, from its percent sign to its verb. -/
def parse (placeholder : Bytes) : Except FormatFault Spec :=
  match placeholder with
  | [] => .error (.malformed placeholder)
  | first :: rest =>
    match rest.getLast?.bind Verb.ofByte? with
    | none => .error (.malformed placeholder)
    | some verb =>
      if first != percent then .error (.malformed placeholder)
      else ofModifiers placeholder verb (rest.dropLast.filter fun b => b != Bytes.backslash)

end Spec

end LeveledLog
