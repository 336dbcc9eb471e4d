import LeveledLog.Bytes

/-!
# Code points as bytes

A Unicode scalar value is written in one to four bytes. Anything else is written as the
replacement character, so the result is always one well-formed code point.
-/

namespace LeveledLog.Utf8

/-- The code point that stands for what cannot be written. -/
def replacement : Nat := 0xFFFD

/-- A scalar value is a code point that is not a surrogate. -/
def IsScalar (cp : Nat) : Prop := cp ≤ 0x10FFFF ∧ ¬ (0xD800 ≤ cp ∧ cp ≤ 0xDFFF)

instance (cp : Nat) : Decidable (IsScalar cp) := by unfold IsScalar; infer_instance

/-- The code point itself if it is a scalar value, otherwise the replacement character. -/
def scalarOf (cp : Nat) : Nat := if IsScalar cp then cp else replacement

/-- The continuation byte that carries the six low bits. -/
def continuation (bits : Nat) : UInt8 := UInt8.ofNat (0x80 + bits % 64)

/-- The bytes of a scalar value, in as few bytes as its size allows. -/
def encodeScalar (cp : Nat) : Bytes :=
  if cp < 0x80 then [UInt8.ofNat cp]
  else if cp < 0x800 then [UInt8.ofNat (0xC0 + cp / 64), continuation cp]
  else if cp < 0x10000 then
    [UInt8.ofNat (0xE0 + cp / 4096), continuation (cp / 64), continuation cp]
  else
    [UInt8.ofNat (0xF0 + cp / 262144), continuation (cp / 4096), continuation (cp / 64),
      continuation cp]

/-- The bytes of a code point, the replacement character if it has none. -/
def encode (cp : Nat) : Bytes := encodeScalar (scalarOf cp)

end LeveledLog.Utf8
