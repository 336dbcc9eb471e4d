import LeveledLog.Decimal

/-!
# Hexadecimal notation of binary numbers

The significand is written in base sixteen with one binary digit before the point, which
is one for normal numbers and zero for subnormal ones, and the exponent counts powers of
two. Fewer digits than the thirteen of the fraction are rounded half to even, which may
carry into the digit before the point.
-/

namespace LeveledLog

open Numeral

namespace Binary64

/-- The number of hexadecimal digits in the fraction field. -/
def hexPlaces : Nat := 13

/-- The power of two written behind the significand. Zero has exponent zero. -/
def hexExponent (x : Binary64) : Int :=
  if x.magnitude = 0 then 0 else x.toDyadic.exponent + 52

/-- The digits of the significand, rounded to the given number of places or exact without
the zeros that end them. -/
def hexSignificand (x : Binary64) (places : Option Nat) (upper : Bool) : Positional :=
  let kept := min (places.getD hexPlaces) hexPlaces
  let rounded := roundDiv x.toDyadic.significand (Nat.pow 16 (hexPlaces - kept))
  let whole := text 16 upper (rounded / Nat.pow 16 kept)
  let fraction :=
    if kept = 0 then [] else zeroPad kept (text 16 upper (rounded % Nat.pow 16 kept))
  match places with
  | some p => ⟨whole, fraction ++ zeros (p - kept)⟩
  | none => ⟨whole, dropLastZeros fraction⟩

/-- The hexadecimal text of the absolute value of a finite number. The exponent has at least
two digits. -/
def hexadecimal (x : Binary64) (places : Option Nat) (upper alternate : Bool) : Bytes :=
  utf8 (if upper then "0X" else "0x") ++ (x.hexSignificand places upper).text alternate ++
    exponentText (if upper then 'P' else 'p').toUInt8 x.hexExponent

end Binary64

end LeveledLog
