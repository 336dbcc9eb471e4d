/-!
# Byte strings

Everything the library reads or writes is a string of bytes, whether or not it is
valid UTF-8. Text is measured in runes: a byte that does not continue an earlier
one starts a rune, so the measure is defined for malformed text as well.
-/

namespace LeveledLog

/-- A string of bytes. -/
abbrev Bytes := List UInt8

/-- The UTF-8 bytes of a literal text. -/
def utf8 (s : String) : Bytes := s.toUTF8.data.toList

namespace Bytes

/-- The byte of the backslash. -/
def backslash : UInt8 := 0x5C

/-- The byte of the double quote. -/
def doubleQuote : UInt8 := 0x22

/-- The byte of the single quote. -/
def singleQuote : UInt8 := 0x27

/-- The byte of the backquote. -/
def backquote : UInt8 := 0x60

/-- The byte that ends a line. -/
def lineFeed : UInt8 := 0x0A

/-- A byte continues the rune before it exactly when its two high bits are `10`. -/
def continuesRune (b : UInt8) : Bool := b &&& 0xC0 == 0x80

/-- The number of bytes that start a rune. -/
def runeCount (s : Bytes) : Nat := s.countP fun b => !continuesRune b

/-- The length in bytes of the longest prefix that starts at most `n` runes. -/
def runePrefixLength (n : Nat) (s : Bytes) : Nat := go n s 0
where
  /-- Walk the rest of the text, `passed` bytes of which are already in the prefix. -/
  go (n : Nat) : Bytes → Nat → Nat
    | [], passed => passed
    | b :: rest, passed =>
      if continuesRune b then go n rest (passed + 1)
      else match n with
        | 0 => passed
        | n + 1 => go n rest (passed + 1)

/-- The longest prefix that starts at most `n` runes. -/
def takeRunes (n : Nat) (s : Bytes) : Bytes := s.take (runePrefixLength n s)

/-- The part of the text before its first zero byte. -/
def beforeZero (s : Bytes) : Bytes := s.takeWhile fun b => b != 0

/-- The upper-case form of an ASCII letter; every other byte is its own. -/
def upperByte (b : UInt8) : UInt8 :=
  if 'a'.toUInt8 ≤ b && b ≤ 'z'.toUInt8 then b - 32 else b

/-- Equality of two texts up to the case of ASCII letters. -/
def sameLetters (s t : Bytes) : Bool := s.map upperByte == t.map upperByte

/-- The text in double quotes, as error messages cite it. -/
def cited (s : Bytes) : Bytes := doubleQuote :: s ++ [doubleQuote]

end Bytes

end LeveledLog
