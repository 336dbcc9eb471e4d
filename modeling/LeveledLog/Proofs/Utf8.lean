import LeveledLog.Utf8
import Mathlib

/-!
# Code points read back

A text is well-formed UTF-8 when it consists of the encodings of characters, and then they can be
told from it. Whatever code point is written, the result is the encoding of one character: of the
code point itself if it is a scalar value, and of the replacement character otherwise.
-/

namespace LeveledLog.Utf8

/-- The characters that a text consists of. There are none if it is not well formed throughout. -/
def decode? (s : Bytes) : Option (List Char) := s.toByteArray.utf8Decode?.map Array.toList

/-- A text consists of characters exactly if it is their encodings, one behind the other. -/
theorem decode?_eq_some_iff {s : Bytes} {cs : List Char} :
    decode? s = some cs ↔ s = cs.flatMap String.utf8EncodeChar := by
  constructor
  · intro h
    obtain ⟨chars, hchars, rfl⟩ := Option.map_eq_some_iff.mp h
    have hencode := ByteArray.utf8Encode_get_utf8Decode? (h := Option.isSome_of_eq_some hchars)
    rw [Option.get_of_eq_some _ hchars] at hencode
    exact List.toByteArray_inj.mp hencode.symm
  · rintro rfl
    have hdecode := @List.utf8Decode?_utf8Encode cs
    rw [List.utf8Encode] at hdecode
    rw [decode?, hdecode, Option.map_some]

/-- The encoding of a character is read back as the character. -/
theorem decode?_utf8EncodeChar (c : Char) : decode? (String.utf8EncodeChar c) = some [c] :=
  decode?_eq_some_iff.mpr (List.append_nil _).symm

theorem toNat_ofNat {cp : Nat} (h : IsScalar cp) : (Char.ofNat cp).toNat = cp := by
  have hvalid : cp.isValidChar := by
    have hlarge := h.1
    have hsurrogate := h.2
    simp only [Nat.isValidChar]
    omega
  rw [Char.toNat_ofNat, if_pos hvalid]

/-- A scalar value is written as its character is encoded. -/
theorem encodeScalar_eq {cp : Nat} (h : IsScalar cp) :
    encodeScalar cp = String.utf8EncodeChar (Char.ofNat cp) := by
  have hlarge := h.1
  have hvalue : (Char.ofNat cp).val.toNat = cp := toNat_ofNat h
  have hcontinuation (bits : Nat) : continuation bits = UInt8.ofNat (bits % 64 + 128) :=
    congrArg UInt8.ofNat (Nat.add_comm ..)
  simp only [encodeScalar, String.utf8EncodeChar, hvalue, hcontinuation]
  by_cases hone : cp < 0x80
  · rw [if_pos hone, if_pos (by omega)]
  by_cases htwo : cp < 0x800
  · have hhead : 0xC0 + cp / 64 = cp / 64 % 32 + 192 := by omega
    rw [if_neg hone, if_pos htwo, if_neg (by omega), if_pos (by omega), hhead]
  by_cases hthree : cp < 0x10000
  · have hhead : 0xE0 + cp / 4096 = cp / 4096 % 16 + 224 := by omega
    rw [if_neg hone, if_neg htwo, if_pos hthree, if_neg (by omega), if_neg (by omega),
      if_pos (by omega), hhead]
  · have hhead : 0xF0 + cp / 262144 = cp / 262144 % 8 + 240 := by omega
    rw [if_neg hone, if_neg htwo, if_neg hthree, if_neg (by omega), if_neg (by omega),
      if_neg (by omega), hhead]

/-- The bytes of a scalar value beyond ASCII have their high bit set. -/
theorem le_of_mem_encodeScalar {cp : Nat} {b : UInt8} (h : IsScalar cp) (hcp : 0x80 ≤ cp)
    (hb : b ∈ encodeScalar cp) : 0x80 ≤ b.toNat := by
  have hlarge : cp ≤ 0x10FFFF := h.1
  have hhigh {n : Nat} (hlow : 0x80 ≤ n) (hbyte : n < 0x100) : 0x80 ≤ (UInt8.ofNat n).toNat := by
    rw [UInt8.toNat_ofNat']
    omega
  have hcontinuation (bits : Nat) : 0x80 ≤ (continuation bits).toNat :=
    hhigh (Nat.le_add_right ..) (by omega)
  unfold encodeScalar at hb
  rw [if_neg (by omega)] at hb
  split at hb
  · simp only [List.mem_cons, List.not_mem_nil, or_false] at hb
    rcases hb with rfl | rfl
    · exact hhigh (Nat.le_add_right_of_le (by decide)) (by omega)
    · exact hcontinuation _
  split at hb
  · simp only [List.mem_cons, List.not_mem_nil, or_false] at hb
    rcases hb with rfl | rfl | rfl
    · exact hhigh (Nat.le_add_right_of_le (by decide)) (by omega)
    · exact hcontinuation _
    · exact hcontinuation _
  · simp only [List.mem_cons, List.not_mem_nil, or_false] at hb
    rcases hb with rfl | rfl | rfl | rfl
    · exact hhigh (Nat.le_add_right_of_le (by decide)) (by omega)
    · exact hcontinuation _
    · exact hcontinuation _
    · exact hcontinuation _

theorem isScalar_scalarOf (cp : Nat) : IsScalar (scalarOf cp) := by
  unfold scalarOf
  split
  · assumption
  · decide

/-- An ASCII byte in the bytes of a code point is the code point itself. -/
theorem eq_of_mem_encode {cp : Nat} {b : UInt8} (hb : b ∈ encode cp) (hascii : b.toNat < 0x80) :
    cp = b.toNat := by
  by_cases hcp : scalarOf cp < 0x80
  · rw [encode, encodeScalar, if_pos hcp, List.mem_singleton] at hb
    have hvalue : b.toNat = scalarOf cp := by
      rw [hb, UInt8.toNat_ofNat']
      omega
    rw [hvalue]
    unfold scalarOf at hcp ⊢
    split
    · rfl
    case isFalse hno =>
      rw [if_neg hno] at hcp
      exact absurd hcp (by decide)
  · have hhigh := le_of_mem_encodeScalar (isScalar_scalarOf cp) (Nat.le_of_not_lt hcp) hb
    omega

/-- Whatever is written is the encoding of one character. -/
theorem encode_eq (cp : Nat) : encode cp = String.utf8EncodeChar (Char.ofNat (scalarOf cp)) :=
  encodeScalar_eq (isScalar_scalarOf cp)

/-- The number of a character is written as the character is encoded. -/
theorem encode_toNat (c : Char) : encode c.toNat = String.utf8EncodeChar c := by
  have hscalar : IsScalar c.toNat := by
    have hvalid : c.toNat < 0xD800 ∨ 0xDFFF < c.toNat ∧ c.toNat < 0x110000 := c.valid
    unfold IsScalar
    omega
  rw [encode_eq, scalarOf, if_pos hscalar, Char.ofNat_toNat]

/-- An ASCII byte encodes the character that has its number. -/
theorem toNat_eq_of_mem {c : Char} {b : UInt8} (hb : b ∈ String.utf8EncodeChar c)
    (hascii : b.toNat < 0x80) : c.toNat = b.toNat :=
  eq_of_mem_encode (encode_toNat c ▸ hb) hascii

/-- An ASCII character is encoded in one byte. -/
theorem utf8EncodeChar_of_lt {c : Char} (h : c.toNat < 0x80) :
    String.utf8EncodeChar c = [UInt8.ofNat c.toNat] := if_pos (Nat.le_of_lt_succ h)

end LeveledLog.Utf8
