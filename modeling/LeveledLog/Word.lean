/-!
# Words

A whole number is a word of 64 bits, with a sign or without one. It has its absolute value as a
word, too, for which the least signed word needs a detour.
-/

namespace LeveledLog

/-- A whole number of 64 bits, with a sign or without one. -/
inductive Word where
  | signed (n : Int64)
  | unsigned (n : UInt64)
  deriving DecidableEq, Repr

namespace Word

/-- The number that the word stands for. -/
def toInt : Word → Int
  | signed n => n.toInt
  | unsigned n => n.toNat

/-- Whether the number is below zero. -/
def negative : Word → Bool
  | signed n => n < 0
  | unsigned _ => false

/-- The absolute value. The least signed word has no counterpart above zero, but the word next
to it has one. -/
def magnitude : Word → UInt64
  | signed n => if n < 0 then (-(n + 1)).toUInt64 + 1 else n.toUInt64
  | unsigned n => n

/-- The bits of the word read without a sign. -/
def bits : Word → UInt64
  | signed n => n.toUInt64
  | unsigned n => n

/-- A byte keeps its number in a signed word. -/
theorem toInt_ofByte (b : UInt8) : (signed (.ofNat b.toNat)).toInt = b.toNat := by
  have hb := b.toNat_lt
  exact Int64.toInt_ofNat_of_lt (by omega)

end Word

end LeveledLog
