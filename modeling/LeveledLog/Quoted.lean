import LeveledLog.Numeral
import LeveledLog.Utf8

/-!
# Quoted text

Inside quotes the quote itself, the backslash, the control bytes and the delete byte are
written as escapes; every other byte, beyond ASCII or not, stands for itself. Text without
control bytes and backquotes can also be written raw between backquotes.
-/

namespace LeveledLog.Quoted

/-- Whether the byte is an ASCII control byte. -/
def isControl (b : UInt8) : Bool := b < 0x20 || b == 0x7F

/-- The letter that names a control byte in an escape, for those that have one. -/
def controlLetter? (b : UInt8) : Option Char :=
  if b == 0x07 then some 'a'
  else if b == 0x08 then some 'b'
  else if b == 0x09 then some 't'
  else if b == 0x0A then some 'n'
  else if b == 0x0B then some 'v'
  else if b == 0x0C then some 'f'
  else if b == 0x0D then some 'r'
  else none

/-- The written form of one byte between the given quotes. -/
def escapeByte (quote b : UInt8) : Bytes :=
  match controlLetter? b with
  | some letter => [Bytes.backslash, letter.toUInt8]
  | none =>
    if b == Bytes.backslash || b == quote then [Bytes.backslash, b]
    else if isControl b then Bytes.backslash :: 'x'.toUInt8 :: Numeral.hexPair false b
    else [b]

/-- The text between the given quotes. -/
def between (quote : UInt8) (s : Bytes) : Bytes := quote :: s.flatMap (escapeByte quote) ++ [quote]

/-- The text as a literal in double quotes. -/
def literal (s : Bytes) : Bytes := between Bytes.doubleQuote s

/-- Whether the text can stand raw between backquotes. -/
def isRaw (s : Bytes) : Bool :=
  s.all fun b => b != Bytes.backquote && (!isControl b || b == '\t'.toUInt8)

/-- The text between backquotes, as it is. -/
def raw (s : Bytes) : Bytes := Bytes.backquote :: s ++ [Bytes.backquote]

/-- A code point as a character literal in single quotes. -/
def rune (cp : Nat) : Bytes := between Bytes.singleQuote (Utf8.encode cp)

end LeveledLog.Quoted
