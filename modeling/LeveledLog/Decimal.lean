import LeveledLog.Binary64
import LeveledLog.Numeral

/-!
# Decimal notation of binary numbers

Every dyadic number is a decimal fraction, so its digits are computed exactly and then
rounded once, half to even. Fixed notation rounds at a place after the point, scientific
notation at a number of digits after the first, and general notation chooses between
the two by the exponent.
-/

namespace LeveledLog

open Numeral

/-- A nonnegative decimal fraction `coefficient / 10 ^ places`. -/
structure Decimal where
  /-- The digits without the point. -/
  coefficient : Nat
  /-- How many of them stand after the point. -/
  places : Nat
  deriving DecidableEq, Repr

/-- The exact decimal form of a dyadic number: a negative power of two is a power of five
over one of ten. -/
def Dyadic.toDecimal (d : Dyadic) : Decimal :=
  ⟨d.num * Nat.pow 5 (-d.exponent).toNat, (-d.exponent).toNat⟩

/-- Digits on the two sides of a point. -/
structure Positional where
  whole : Bytes
  fraction : Bytes
  deriving DecidableEq, Repr

/-- The digits of a number with one digit before the point, and the power of ten they are
scaled by. -/
structure Scientific where
  /-- The digits, the first of them before the point. -/
  digits : Bytes
  exponent : Int
  deriving DecidableEq, Repr

/-- The digits without the zeros that end them. -/
def dropLastZeros (s : Bytes) : Bytes := (s.reverse.dropWhile fun b => b == '0'.toUInt8).reverse

/-- A power of ten as a mark, a sign and at least two digits. -/
def exponentText (mark : UInt8) (exponent : Int) : Bytes :=
  mark :: (if exponent < 0 then '-' else '+').toUInt8 :: zeroPad 2 (decimal exponent.natAbs)

namespace Positional

/-- The digits with a point between them. A point with nothing behind it is kept only in the
alternate form. -/
def text (alternate : Bool) (p : Positional) : Bytes :=
  if p.fraction.isEmpty && !alternate then p.whole
  else p.whole ++ '.'.toUInt8 :: p.fraction

/-- The same number without the zeros that end its fraction. -/
def trimmed (p : Positional) : Positional := { p with fraction := dropLastZeros p.fraction }

end Positional

namespace Scientific

/-- The digits split at the point. -/
def mantissa (s : Scientific) : Positional := ⟨s.digits.take 1, s.digits.drop 1⟩

/-- The mantissa followed by the exponent. -/
def text (upper alternate : Bool) (s : Scientific) : Bytes :=
  s.mantissa.text alternate ++ exponentText (if upper then 'E' else 'e').toUInt8 s.exponent

/-- The same number without the zeros that end its fraction. -/
def trimmed (s : Scientific) : Scientific :=
  { s with digits := s.digits.take 1 ++ dropLastZeros (s.digits.drop 1) }

end Scientific

namespace Decimal

/-- The number rounded to `places` digits after the point. Beyond the places the number has
there are only zeros, so those are written and not computed. -/
def fixed (d : Decimal) (places : Nat) : Positional :=
  let kept := min places d.places
  let rounded := roundDiv d.coefficient (Nat.pow 10 (d.places - kept))
  let all := zeroPad (kept + 1) (decimal rounded)
  ⟨all.take (all.length - kept), all.drop (all.length - kept) ++ zeros (places - kept)⟩

/-- The power of ten of the first digit. Zero has exponent zero. -/
def exponent (d : Decimal) : Int :=
  if d.coefficient = 0 then 0 else ((decimal d.coefficient).length : Int) - 1 - d.places

/-- The number rounded to one digit before the point and `places` digits after it. Rounding
up to the next power of ten moves the exponent. -/
def scientific (d : Decimal) (places : Nat) : Scientific :=
  if d.coefficient = 0 then ⟨zeros (places + 1), 0⟩
  else
    let all := decimal d.coefficient
    if all.length ≤ places + 1 then ⟨all ++ zeros (places + 1 - all.length), d.exponent⟩
    else
      let rounded := roundDiv d.coefficient (Nat.pow 10 (all.length - (places + 1)))
      if rounded = Nat.pow 10 (places + 1) then ⟨decimal (Nat.pow 10 places), d.exponent + 1⟩
      else ⟨decimal rounded, d.exponent⟩

/-- The number to `precision` significant digits, at least one: in scientific notation when
the exponent is below `-4` or not below the number of digits, otherwise in fixed notation.
Zeros at the end of the fraction are kept only in the alternate form, and also there only if
the number needs scientific notation before it is rounded: one that rounding alone takes out
of fixed notation had no fraction, and gets none. -/
def general (d : Decimal) (precision : Nat) (upper alternate : Bool) : Bytes :=
  let significant := max precision 1
  let s := d.scientific (significant - 1)
  if s.exponent < -4 ∨ (significant : Int) ≤ s.exponent then
    let keepsZeros := alternate && !decide (d.exponent < significant ∧ significant ≤ s.exponent)
    (if keepsZeros then s else s.trimmed).text upper alternate
  else
    let p := d.fixed ((significant : Int) - 1 - s.exponent).toNat
    (if alternate then p else p.trimmed).text alternate

end Decimal

end LeveledLog
