import LeveledLog.Word
import Mathlib

/-!
# Absolute values of words

No operation on the way to the absolute value of a word overflows, so it is the absolute value of
the number that the word stands for.
-/

namespace LeveledLog

namespace Word

theorem toInt_add_one {n : Int64} (h : n < 0) : (n + 1).toInt = n.toInt + 1 := by
  have hneg : n.toInt < 0 := Int64.lt_iff_toInt_lt.mp h
  have hlow := n.le_toInt
  rw [Int64.toInt_add, Int64.toInt_one]
  exact Int.bmod_eq_of_le (by omega) (by omega)

/-- The word next to a negative one has a counterpart. -/
theorem toInt_neg_add_one {n : Int64} (h : n < 0) : (-(n + 1)).toInt = -(n.toInt + 1) := by
  have hneg : n.toInt < 0 := Int64.lt_iff_toInt_lt.mp h
  have hlow := n.le_toInt
  rw [Int64.toInt_neg, toInt_add_one h]
  exact Int.bmod_eq_of_le (by omega) (by omega)

/-- The counterpart and one more is the magnitude of a negative word. -/
theorem toNat_magnitude_of_neg {n : Int64} (h : n < 0) :
    (signed n).magnitude.toNat = (-(n + 1)).toInt.toNat + 1 := by
  have hneg : n.toInt < 0 := Int64.lt_iff_toInt_lt.mp h
  have hlow := n.le_toInt
  have hopposite := toInt_neg_add_one h
  have hnonneg : 0 ≤ -(n + 1) := by
    rw [Int64.le_iff_toInt_le, hopposite]
    change 0 ≤ _
    omega
  have hword : (-(n + 1)).toUInt64.toNat = (-(n + 1)).toInt.toNat :=
    Int64.toNat_toUInt64_of_le hnonneg
  have hmagnitude : (signed n).magnitude = (-(n + 1)).toUInt64 + 1 := if_pos h
  rw [hmagnitude, UInt64.toNat_add, hword, hopposite]
  change ((-(n.toInt + 1)).toNat + 1) % _ = _
  omega

/-- The magnitude of a word is the absolute value of its number. -/
theorem toNat_magnitude (w : Word) : w.magnitude.toNat = w.toInt.natAbs := by
  cases w with
  | unsigned n => rfl
  | signed n =>
    by_cases h : n < 0
    · have hneg : n.toInt < 0 := Int64.lt_iff_toInt_lt.mp h
      rw [toNat_magnitude_of_neg h, toInt_neg_add_one h, toInt]
      omega
    · have hnonneg : 0 ≤ n := Int64.not_lt.mp h
      have hpos : 0 ≤ n.toInt := Int64.le_iff_toInt_le.mp hnonneg
      have hword : n.toUInt64.toNat = n.toInt.toNat := Int64.toNat_toUInt64_of_le hnonneg
      have hmagnitude : (signed n).magnitude = n.toUInt64 := if_neg h
      rw [hmagnitude, hword, toInt]
      omega

theorem negative_eq (w : Word) : w.negative = decide (w.toInt < 0) := by
  cases w with
  | signed n =>
    rw [negative, toInt]
    exact decide_eq_decide.mpr Int64.lt_iff_toInt_lt
  | unsigned n =>
    rw [negative, toInt, eq_comm, decide_eq_false_iff_not]
    omega

/-- The bits of a word that is not negative are its magnitude. -/
theorem toNat_bits {w : Word} (h : 0 ≤ w.toInt) : w.bits.toNat = w.toInt.toNat := by
  have hbits : w.bits = w.magnitude := by
    cases w with
    | unsigned n => rfl
    | signed n =>
      have hno : ¬ n < 0 := fun hneg => Int.not_le.mpr (Int64.lt_iff_toInt_lt.mp hneg) h
      exact (if_neg hno).symm
  rw [hbits, toNat_magnitude]
  omega

end Word

end LeveledLog
