import LeveledLog.Rounding
import Mathlib

/-!
# Rounded quotients as rational numbers

The rounded quotient is the natural number nearest to a rational number. It is the only one that
is less than half a unit away from it.
-/

namespace LeveledLog

/-- A power with any exponent as a quotient of powers with natural ones. -/
theorem zpow_eq_div {base : ℚ} (h : base ≠ 0) (exponent : Int) :
    base ^ exponent = base ^ exponent.toNat / base ^ (-exponent).toNat := by
  have hsplit : ((exponent.toNat : Int) - (-exponent).toNat) = exponent :=
    Int.toNat_sub_toNat_neg exponent
  rw [← zpow_natCast, ← zpow_natCast, ← zpow_sub₀ h, hsplit]

variable {num den : Nat}

/-- The remainder decides between the two natural numbers next to a quotient, and in the middle
the parity of the lower one does. -/
theorem roundDiv_cases (num den : Nat) :
    (2 * (num % den) < den ∧ roundDiv num den = num / den) ∨
    (den < 2 * (num % den) ∧ roundDiv num den = num / den + 1) ∨
    (2 * (num % den) = den ∧ roundDiv num den = num / den + num / den % 2) := by
  by_cases hless : 2 * (num % den) < den
  · exact .inl ⟨hless, if_pos hless⟩
  by_cases hmore : den < 2 * (num % den)
  · exact .inr (.inl ⟨hmore, (if_neg hless).trans (if_pos hmore)⟩)
  · exact .inr (.inr ⟨by omega, (if_neg hless).trans (if_neg hmore)⟩)

/-- Rounding does not go below a natural number that the quotient is not below. -/
theorem le_roundDiv {n : Nat} (hden : 0 < den) (h : n * den ≤ num) : n ≤ roundDiv num den := by
  have hfloor : n ≤ num / den := (Nat.le_div_iff_mul_le hden).mpr h
  have hcases := roundDiv_cases num den
  omega

/-- The rounded quotient is within half a unit of the exact one. -/
theorem abs_roundDiv_sub_le (hden : 0 < den) :
    |(roundDiv num den : ℚ) - num / den| ≤ 1 / 2 := by
  obtain ⟨hlow, hhigh⟩ : 2 * (roundDiv num den * den) ≤ 2 * num + den ∧
      2 * num ≤ 2 * (roundDiv num den * den) + den := roundDiv_near hden
  have hpos : (0 : ℚ) < den := by exact_mod_cast hden
  have hexact : (num : ℚ) / den * den = num := div_mul_cancel₀ _ hpos.ne'
  have hlow : 2 * ((roundDiv num den : ℚ) * den) ≤ 2 * num + den := by exact_mod_cast hlow
  have hhigh : 2 * (num : ℚ) ≤ 2 * (roundDiv num den * den) + den := by exact_mod_cast hhigh
  rw [abs_le]
  constructor
  · by_contra hfar
    nlinarith
  · by_contra hfar
    nlinarith

/-- A natural number less than half a unit away is the rounded quotient. -/
theorem roundDiv_eq_of_abs_lt (hden : 0 < den) {n : Nat} (h : |(n : ℚ) - num / den| < 1 / 2) :
    roundDiv num den = n := by
  have hround : |(roundDiv num den : ℚ) - num / den| ≤ 1 / 2 := abs_roundDiv_sub_le hden
  have hclose : |(roundDiv num den : ℚ) - n| < 1 := by
    calc |(roundDiv num den : ℚ) - n|
        ≤ |(roundDiv num den : ℚ) - num / den| + |(num : ℚ) / den - n| := abs_sub_le _ _ _
      _ < 1 := by
        rw [abs_sub_comm ((num : ℚ) / den) n]
        linarith
  have hinteger : |((roundDiv num den : Int) - n)| < 1 := by exact_mod_cast hclose
  have := Int.abs_lt_one_iff.mp hinteger
  omega

end LeveledLog
