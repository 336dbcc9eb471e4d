import LeveledLog.Bytes

/-!
# Positional numerals

Digits of naturals in a base, their text, and the value a text of digits denotes.
Digits beyond nine are letters in the case the caller asks for.
-/

namespace LeveledLog.Numeral

/-- The digits of `n` in `base`, most significant first. Zero has the one digit zero. -/
def digits (base n : Nat) : List Nat := go n []
where
  /-- Put the digits of `n` in front of those already found. -/
  go (n : Nat) (found : List Nat) : List Nat :=
    if n < base ∨ base < 2 then n :: found
    else go (n / base) (n % base :: found)
  termination_by n
  decreasing_by exact Nat.div_lt_self (by omega) (by omega)

/-- The byte that writes one digit. -/
def digitByte (upper : Bool) (d : Nat) : UInt8 :=
  UInt8.ofNat (if d < 10 then '0'.toNat + d else (if upper then 'A' else 'a').toNat + (d - 10))

/-- The numeral of `n` in `base`. -/
def text (base : Nat) (upper : Bool) (n : Nat) : Bytes := (digits base n).map (digitByte upper)

/-- The decimal numeral of `n`. -/
def decimal (n : Nat) : Bytes := text 10 false n

/-- The decimal numeral of an integer, with a minus sign when it is negative. -/
def signed (n : Int) : Bytes :=
  if n < 0 then '-'.toUInt8 :: decimal n.natAbs else decimal n.natAbs

/-- A run of zero digits. -/
def zeros (n : Nat) : Bytes := List.replicate n '0'.toUInt8

/-- The text with leading zeros up to the given width. -/
def zeroPad (width : Nat) (s : Bytes) : Bytes := zeros (width - s.length) ++ s

/-- Whether the byte is an ASCII decimal digit. -/
def isDigit (b : UInt8) : Bool := '0'.toUInt8 ≤ b && b ≤ '9'.toUInt8

/-- The number a decimal digit stands for. -/
def digitValue (b : UInt8) : Nat := b.toNat - '0'.toNat

/-- The value of a string of decimal digits. -/
def value (s : Bytes) : Nat := s.foldl (fun total b => 10 * total + digitValue b) 0

/-- The two hexadecimal digits of a byte, the high half first. -/
def hexPair (upper : Bool) (b : UInt8) : Bytes :=
  [digitByte upper (b.toNat / 16), digitByte upper (b.toNat % 16)]

/-- Whether the byte is ASCII white space. -/
def isSpace (b : UInt8) : Bool := b == ' '.toUInt8 || ('\t'.toUInt8 ≤ b && b ≤ '\r'.toUInt8)

/-- An integer read from the front of a text, with the part of the text behind it. -/
structure Leading where
  negative : Bool
  magnitude : Nat
  /-- What follows the last digit. -/
  rest : Bytes
  deriving DecidableEq, Repr

/-- Whether a text begins with a minus sign, and the text without its sign. -/
def splitSign : Bytes → Bool × Bytes
  | [] => (false, [])
  | b :: rest =>
    if b == '-'.toUInt8 then (true, rest)
    else if b == '+'.toUInt8 then (false, rest)
    else (false, b :: rest)

/-- Read leading white space, an optional sign and the longest run of digits, at least one. -/
def leading? (s : Bytes) : Option Leading :=
  let (negative, s) := splitSign (s.dropWhile isSpace)
  match s.takeWhile isDigit with
  | [] => none
  | ds => some ⟨negative, value ds, s.dropWhile isDigit⟩

end LeveledLog.Numeral
