import LeveledLog.Decimal
import LeveledLog.Word

/-!
# Durations

A duration is a signed 64-bit count of nanoseconds. Counts of other units are converted, rounded
toward zero and held inside the range, which is tested on a product in a wider format than the one
that is kept. The text of a duration
names its largest units: hours, minutes and seconds from one second on, otherwise one
decimal number of a smaller unit.
-/

namespace LeveledLog

/-- A signed number of nanoseconds. -/
structure Duration where
  nanoseconds : Int64
  deriving DecidableEq, Repr

/-- The units in which whole counts of time are given. -/
inductive TimeUnit where
  | picosecond
  | nanosecond
  | microsecond
  | millisecond
  | second
  | minute
  | hour
  deriving DecidableEq, Repr

/-- The length of a unit in picoseconds. -/
def TimeUnit.picoseconds : TimeUnit → Nat
  | picosecond => 1
  | nanosecond => 1000
  | microsecond => 1000000
  | millisecond => 1000000000
  | second => 1000000000000
  | minute => 60 * 1000000000000
  | hour => 3600 * 1000000000000

namespace Duration

/-- The greatest number of nanoseconds. -/
def greatest : Int := 0x7FFFFFFFFFFFFFFF

/-- The least number of nanoseconds. -/
def least : Int := -0x8000000000000000

/-- The number of nanoseconds in a second. -/
def nanosecondsPerSecond : Nat := 1000000000

/-- The significant bits of the extended format in which the range is tested. -/
def extendedPrecision : Nat := 64

/-- The least exponent of the extended format. -/
def extendedLeastExponent : Int := -16445

/-- The end of the range that a number of nanoseconds has reached. The number is given by its
sign and its absolute value as a quotient, which is tested in the extended format. -/
def bound? (negative : Bool) (num den : Nat) : Option Int64 :=
  let wide := Dyadic.nearest extendedPrecision extendedLeastExponent num den
  if negative then if wide.atLeast least.natAbs then some .minValue else none
  else if wide.atLeast greatest.natAbs then some .maxValue else none

/-- A whole count of a unit in nanoseconds, by a division or a multiplication of 64 bits. -/
def convert (unit : TimeUnit) (count : Int64) : Int64 :=
  match unit with
  | .picosecond => count / 1000
  | unit => count * .ofNat (unit.picoseconds / 1000)

/-- A whole count of a unit. Inside the range it is converted in 64 bits. -/
def ofCount (unit : TimeUnit) (count : Int64) : Duration :=
  ⟨(bound? (count < 0) (count.toInt.natAbs * unit.picoseconds) 1000).getD (convert unit count)⟩

/-- A binary64 number rounded toward zero. One that does not fit into 64 bits becomes the least
word. -/
def truncate (x : Binary64) : Int64 :=
  let n : Int := if x.negative then -x.toDyadic.floor else x.toDyadic.floor
  if least ≤ n ∧ n ≤ greatest then .ofInt n else .minValue

/-- A binary number of seconds. What is not a number counts as zero. Inside the range it is the
binary64 product with a billion, rounded toward zero. -/
def ofSeconds (x : Binary64) : Duration :=
  if x.isNaN then ⟨0⟩
  else if x.isInfinite then ⟨if x.negative then .minValue else .maxValue⟩
  else
    let num := x.toDyadic.num * nanosecondsPerSecond
    let den := x.toDyadic.den
    ⟨(bound? x.negative num den).getD (truncate (.ofRatio x.negative num den))⟩

open Numeral

/-- The quotient of `n` by ten to the given power as a decimal number, without zeros at the
end of its fraction. -/
def fractionText (n power : Nat) : Bytes :=
  let fraction := n % Nat.pow 10 power
  if fraction = 0 then decimal (n / Nat.pow 10 power)
  else
    decimal (n / Nat.pow 10 power) ++ '.'.toUInt8 ::
      dropLastZeros (zeroPad power (decimal fraction))

/-- The text of a positive number of nanoseconds. -/
def magnitudeText (n : Nat) : Bytes :=
  if n < 1000 then decimal n ++ utf8 "ns"
  else if n < 1000000 then fractionText n 3 ++ utf8 "µs"
  else if n < nanosecondsPerSecond then fractionText n 6 ++ utf8 "ms"
  else
    let minutes := n / (60 * nanosecondsPerSecond)
    let hours := minutes / 60
    (if hours = 0 then [] else decimal hours ++ utf8 "h") ++
      (if minutes = 0 then [] else decimal (minutes % 60) ++ utf8 "m") ++
      fractionText (n % (60 * nanosecondsPerSecond)) 9 ++ utf8 "s"

/-- The text of a duration. -/
def text (d : Duration) : Bytes :=
  let w := Word.signed d.nanoseconds
  if d.nanoseconds = 0 then utf8 "0s"
  else if w.negative then '-'.toUInt8 :: magnitudeText w.magnitude.toNat
  else magnitudeText w.magnitude.toNat

end Duration

end LeveledLog
