import LeveledLog.Decimal

/-!
# Shortest decimal text of a binary number

The shortest text has the fewest digits whose value rounds to the number it was made
from. It is laid out in scientific notation when its exponent is below `-4` or at
least `6`, and in fixed notation with the same last place otherwise.
-/

namespace LeveledLog

open Numeral

/-- The magnitude pattern nearest to the value of a scientific numeral. -/
def Scientific.nearestMagnitude (s : Scientific) : Nat :=
  let scale := s.exponent + 1 - s.digits.length
  Binary64.nearestMagnitude (value s.digits * Nat.pow 10 scale.toNat)
    (Nat.pow 10 (-scale).toNat)

/-- The exponent from which shortest texts are written in scientific notation. -/
def scientificFrom : Int := 6

namespace Binary64

/-- Whether the number rounded to `places` digits after the first reads back to itself. -/
def readsBackAt (x : Binary64) (places : Nat) : Bool :=
  (x.toDyadic.toDecimal.scientific places).nearestMagnitude == x.magnitude

/-- The fewest digits after the first with which the number reads back; sixteen always suffice. -/
def shortestPlaces (x : Binary64) : Nat := ((List.range 16).find? x.readsBackAt).getD 16

/-- The shortest text of the absolute value of a finite number. -/
def shortest (x : Binary64) (upper : Bool) : Bytes :=
  let d := x.toDyadic.toDecimal
  let places := x.shortestPlaces
  let s := d.scientific places
  if s.exponent < -4 ∨ scientificFrom ≤ s.exponent then s.text upper false
  else (d.fixed ((places : Int) - s.exponent).toNat).text false

end Binary64

/-- How many digits of a numeral count as significant: those from the first nonzero one on. -/
def significantDigits (s : Bytes) : Nat :=
  ((s.filter isDigit).dropWhile fun b => b == '0'.toUInt8).length

/-- Whether a byte marks the exponent of a numeral. -/
def isExponentMark (b : UInt8) : Bool := b == 'e'.toUInt8 || b == 'E'.toUInt8

/-- The numeral with a point and with zeros up to six significant digits, in front of its
exponent. The single digit of zero counts as significant. -/
def padSignificant (s : Bytes) : Bytes :=
  let mantissa := s.takeWhile fun b => !isExponentMark b
  let exponent := s.dropWhile fun b => !isExponentMark b
  let shown := significantDigits mantissa + if mantissa == utf8 "0" then 1 else 0
  let pointed := if mantissa.contains '.'.toUInt8 then mantissa else mantissa ++ utf8 "."
  pointed ++ zeros (6 - shown) ++ exponent

end LeveledLog
