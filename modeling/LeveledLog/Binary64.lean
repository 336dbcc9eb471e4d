import LeveledLog.Rounding

/-!
# Binary floating point

A finite number is a natural significand times a power of two. `Dyadic.nearest`
rounds a quotient of naturals to a given precision, and `Binary64` is the format of
53 significant bits by its bit pattern. The pattern without its sign grows with the
value, so the nearest number is found by arithmetic on patterns alone.
-/

namespace LeveledLog

/-- A nonnegative number `significand * 2 ^ exponent`. -/
structure Dyadic where
  significand : Nat
  /-- The power of two it is scaled by. -/
  exponent : Int
  deriving DecidableEq, Repr

namespace Dyadic

/-- The numerator of the number as a quotient over `den`. -/
def num (d : Dyadic) : Nat := d.significand * Nat.pow 2 d.exponent.toNat

/-- The denominator of the number, a power of two. -/
def den (d : Dyadic) : Nat := Nat.pow 2 (-d.exponent).toNat

/-- The greatest integer that is not above the number. -/
def floor (d : Dyadic) : Nat := d.num / d.den

/-- Whether the number is at least the natural `n`. -/
def atLeast (d : Dyadic) (n : Nat) : Bool := n * d.den ≤ d.num

/-- Scale a quotient down by a power of two, as a numerator and a denominator. -/
def scale (num den : Nat) (exponent : Int) : Nat × Nat :=
  (num * Nat.pow 2 (-exponent).toNat, den * Nat.pow 2 exponent.toNat)

/-- The exponent at which the quotient has `precision` bits before the point. The two
logarithms leave one bit of doubt, which one comparison settles. -/
def leadingExponent (precision num den : Nat) : Int :=
  let guess := (num.log2 : Int) - den.log2 - precision
  let (n, d) := scale num den guess
  if n < d * Nat.pow 2 precision then guess else guess + 1

/-- The number nearest to `num / den` with at most `precision` significant bits and no
exponent below `least`; of two equally near the one with the even significand. -/
def nearest (precision : Nat) (least : Int) (num den : Nat) : Dyadic :=
  if num = 0 then ⟨0, least⟩
  else
    let exponent := max (leadingExponent precision num den) least
    let (n, d) := scale num den exponent
    ⟨roundDiv n d, exponent⟩

end Dyadic

/-- A binary64 number by its bit pattern: sign, eleven exponent bits, 52 fraction bits. -/
structure Binary64 where
  /-- The pattern, sign first. -/
  bits : UInt64
  deriving DecidableEq, Repr

namespace Binary64

/-- The value of the sign bit. -/
def signBit : Nat := 0x8000000000000000

/-- The number of values of the fraction field. -/
def fractions : Nat := 0x10000000000000

/-- Whether the sign bit is set. -/
def negative (x : Binary64) : Bool := signBit ≤ x.bits.toNat

/-- The pattern without its sign bit. -/
def magnitude (x : Binary64) : Nat := x.bits.toNat % signBit

/-- The exponent field. -/
def exponentField (x : Binary64) : Nat := x.magnitude / fractions

/-- The fraction field. -/
def fractionField (x : Binary64) : Nat := x.magnitude % fractions

/-- The pattern of infinity, the least one that stands for no finite number. -/
def infinity : Nat := 2047 * fractions

/-- Whether the pattern stands for no number at all. -/
def isNaN (x : Binary64) : Bool := infinity < x.magnitude

/-- Whether the pattern is one of the two infinities. -/
def isInfinite (x : Binary64) : Bool := x.magnitude == infinity

/-- The exponent of the least positive number. -/
def leastExponent : Int := -1074

/-- The absolute value of a finite number. -/
def toDyadic (x : Binary64) : Dyadic :=
  if x.exponentField = 0 then ⟨x.fractionField, leastExponent⟩
  else ⟨fractions + x.fractionField, x.exponentField - 1 + leastExponent⟩

/-- The pattern nearest to the nonnegative quotient `num / den`, infinity when it overflows. -/
def nearestMagnitude (num den : Nat) : Nat :=
  let d := Dyadic.nearest 53 leastExponent num den
  min ((d.exponent - leastExponent).toNat * fractions + d.significand) infinity

/-- The number with the given sign and the nearest pattern to `num / den`. -/
def ofRatio (negative : Bool) (num den : Nat) : Binary64 :=
  ⟨UInt64.ofNat (nearestMagnitude num den + if negative then signBit else 0)⟩

/-- The number nearest to an integer. -/
def ofInt (n : Int) : Binary64 := ofRatio (n < 0) n.natAbs 1

end Binary64

end LeveledLog
