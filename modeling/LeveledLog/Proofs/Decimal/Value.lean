import LeveledLog.Decimal
import LeveledLog.Proofs.Binary64.Pattern
import LeveledLog.Proofs.Numeral
import LeveledLog.Proofs.Rounding

/-!
# The values of decimal notations

Decimal fractions and the digits in fixed and in scientific notation stand for rational
numbers. Both notations round a fraction at a place once, half to even, so they agree when the
place is the same, and also when a number is so near to the end of a coarser place that both
places round it to the same number.
-/

namespace LeveledLog

open Numeral

/-- The number that a decimal fraction stands for. -/
def Decimal.toRat (d : Decimal) : ℚ := d.coefficient / 10 ^ d.places

/-- The number that digits on the two sides of a point stand for. -/
def Positional.toRat (p : Positional) : ℚ := value (p.whole ++ p.fraction) / 10 ^ p.fraction.length

/-- The number that digits and a power of ten stand for, the point behind the first digit. -/
def Scientific.toRat (s : Scientific) : ℚ :=
  value s.digits * 10 ^ (s.exponent + 1 - s.digits.length)

/-- Digits and a power of ten stay below the next power of ten. -/
theorem Scientific.toRat_lt {s : Scientific} (h : ∀ b ∈ s.digits, isDigit b = true) :
    s.toRat < 10 ^ (s.exponent + 1) := by
  have hten : (10 : ℚ) ≠ 0 := by norm_num
  have hunit : (0 : ℚ) < 10 ^ (s.exponent + 1 - s.digits.length) := by positivity
  have hvalue : (value s.digits : ℚ) < 10 ^ s.digits.length := by exact_mod_cast value_lt h
  calc s.toRat < 10 ^ s.digits.length * 10 ^ (s.exponent + 1 - s.digits.length) := by
        unfold toRat
        gcongr
    _ = 10 ^ (s.exponent + 1) := by
        rw [← zpow_natCast, ← zpow_add₀ hten]
        congr 1
        ring

/-- The decimal form of a dyadic number is exact. -/
theorem Dyadic.toRat_toDecimal (d : Dyadic) : d.toDecimal.toRat = d.toRat := by
  have hten : (10 : ℚ) ^ (-d.exponent).toNat =
      2 ^ (-d.exponent).toNat * 5 ^ (-d.exponent).toNat := by
    rw [← mul_pow]
    norm_num
  rw [Dyadic.toRat, zpow_eq_div two_ne_zero]
  simp only [Decimal.toRat, toDecimal, num, Nat.pow_eq, hten]
  push_cast
  field_simp

namespace Decimal

variable (d : Decimal)

/-- How many units of the given power of ten the number is, rounded once. -/
def roundedAt (place : Int) : Nat :=
  roundDiv (d.coefficient * 10 ^ (-(place + d.places)).toNat) (10 ^ (place + d.places).toNat)

private theorem ratio_roundedAt (place : Int) :
    ((d.coefficient * 10 ^ (-(place + d.places)).toNat : Nat) : ℚ) /
      (10 ^ (place + d.places).toNat : Nat) = d.toRat / 10 ^ place := by
  have hten : (10 : ℚ) ≠ 0 := by norm_num
  have hplaces : (10 : ℚ) ^ (place + d.places) = 10 ^ place * 10 ^ d.places := by
    rw [zpow_add₀ hten, zpow_natCast]
  calc ((d.coefficient * 10 ^ (-(place + d.places)).toNat : Nat) : ℚ) /
        (10 ^ (place + d.places).toNat : Nat)
      = d.coefficient / 10 ^ (place + d.places) := by
        rw [zpow_eq_div hten]
        push_cast
        field_simp
    _ = d.toRat / 10 ^ place := by
        rw [hplaces, toRat]
        field_simp

/-- The rounded number of units is within half a unit of the exact one. -/
theorem abs_roundedAt_sub_le (place : Int) :
    |(d.roundedAt place : ℚ) - d.toRat / 10 ^ place| ≤ 1 / 2 := by
  rw [← ratio_roundedAt]
  exact abs_roundDiv_sub_le (by positivity)

/-- A number of units that is less than half a unit away is the rounded one. -/
theorem roundedAt_eq {place : Int} {n : Nat} (h : |(n : ℚ) - d.toRat / 10 ^ place| < 1 / 2) :
    d.roundedAt place = n := by
  rw [← ratio_roundedAt] at h
  exact roundDiv_eq_of_abs_lt (by positivity) h

private theorem roundedAt_coarse {place : Int} (h : 0 ≤ place + d.places) :
    d.roundedAt place = roundDiv d.coefficient (10 ^ (place + d.places).toNat) := by
  rw [roundedAt, Int.toNat_eq_zero.mpr (by omega : -(place + d.places) ≤ 0), pow_zero, Nat.mul_one]

private theorem roundedAt_fine {place : Int} (h : place + d.places ≤ 0) :
    d.roundedAt place = d.coefficient * 10 ^ (-(place + d.places)).toNat := by
  have hone := roundDiv_mul (d.coefficient * 10 ^ (-(place + d.places)).toNat) Nat.one_pos
  rw [Nat.mul_one] at hone
  rw [roundedAt, Int.toNat_eq_zero.mpr h, pow_zero, hone]

/-! ## Fixed notation -/

/-- The digits in fixed notation are those of the number rounded at the last place. -/
theorem fixed_digits (places : Nat) :
    value ((d.fixed places).whole ++ (d.fixed places).fraction) = d.roundedAt (-places) ∧
      (d.fixed places).fraction.length = places ∧ (d.fixed places).whole ≠ [] ∧
      ∀ b ∈ (d.fixed places).whole ++ (d.fixed places).fraction, isDigit b = true := by
  unfold fixed
  extract_lets kept rounded all
  have hlength : kept + 1 ≤ all.length := by
    rw [length_zeroPad]
    exact le_max_left _ _
  have hdigits : ∀ b ∈ all, isDigit b = true :=
    isDigit_of_mem_zeroPad (isDigit_of_mem_decimal rounded)
  have hjoined : all.take (all.length - kept) ++
      (all.drop (all.length - kept) ++ zeros (places - kept)) = all ++ zeros (places - kept) := by
    rw [← List.append_assoc, List.take_append_drop]
  refine ⟨?_, ?_, ?_, ?_⟩
  · have hvalue : value all = rounded := by rw [value_zeroPad, value_decimal]
    rw [hjoined, value_append, hvalue, value_zeros, length_zeros, Nat.add_zero]
    simp only [rounded, kept, Nat.pow_eq]
    by_cases hle : places ≤ d.places
    · rw [min_eq_left hle, Nat.sub_self, pow_zero, Nat.mul_one,
        d.roundedAt_coarse (by omega), show (-(places : Int) + d.places).toNat =
          d.places - places by omega]
    · have hexact := roundDiv_mul d.coefficient Nat.one_pos
      rw [Nat.mul_one] at hexact
      rw [min_eq_right (by omega), Nat.sub_self, pow_zero, hexact, d.roundedAt_fine (by omega),
        show (-(-(places : Int) + d.places)).toNat = places - d.places by omega]
  · simp only [List.length_append, List.length_drop, length_zeros]
    omega
  · rw [← List.length_pos_iff, List.length_take]
    omega
  · rw [hjoined]
    intro b hb
    rcases List.mem_append.mp hb with hb | hb
    · exact hdigits b hb
    · exact isDigit_of_mem_zeros hb

theorem toRat_fixed (places : Nat) :
    (d.fixed places).toRat = d.roundedAt (-places) / 10 ^ places := by
  obtain ⟨hvalue, hlength, _⟩ := d.fixed_digits places
  rw [Positional.toRat, hvalue, hlength]

/-- A number with so many places that is less than half a unit of the last one away is what fixed
notation shows. -/
theorem toRat_fixed_eq {places n : Nat} (h : |(n : ℚ) - d.toRat * 10 ^ places| < 1 / 2) :
    (d.fixed places).toRat = n / 10 ^ places := by
  have hround : d.roundedAt (-places) = n := by
    apply roundedAt_eq
    rwa [zpow_neg, zpow_natCast, div_inv_eq_mul]
  rw [toRat_fixed, hround]

/-! ## Scientific notation -/

variable {d}

/-- A number other than zero lies between the power of ten of its first digit and the next. -/
theorem exponent_spec (h : d.coefficient ≠ 0) :
    (10 : ℚ) ^ d.exponent ≤ d.toRat ∧ d.toRat < 10 ^ (d.exponent + 1) := by
  have hten : (10 : ℚ) ≠ 0 := by norm_num
  have hplaces : (0 : ℚ) < 10 ^ d.places := by positivity
  have hlength := length_decimal_pos d.coefficient
  have hexponent : d.exponent = ((decimal d.coefficient).length - 1 : Nat) - (d.places : Int) := by
    rw [exponent, if_neg h]
    omega
  have hnext : d.exponent + 1 = ((decimal d.coefficient).length : Int) - d.places := by omega
  constructor
  · rw [hexponent, zpow_sub₀ hten, zpow_natCast, zpow_natCast, toRat]
    gcongr
    exact_mod_cast pow_length_decimal_le h
  · rw [hnext, zpow_sub₀ hten, zpow_natCast, zpow_natCast, toRat]
    gcongr
    exact_mod_cast lt_pow_length_decimal d.coefficient

/-- The power of ten of the first digit is the logarithm. -/
theorem exponent_eq_log (h : d.coefficient ≠ 0) : d.exponent = Int.log 10 d.toRat := by
  obtain ⟨hlow, hhigh⟩ := exponent_spec h
  have hpos : 0 < d.toRat := lt_of_lt_of_le (by positivity) hlow
  have hle := (Int.zpow_le_iff_le_log (by decide : 1 < 10) hpos).mp (by exact_mod_cast hlow)
  have hlt := (Int.lt_zpow_iff_log_lt (by decide : 1 < 10) hpos).mp (by exact_mod_cast hhigh)
  omega

/-- Rounded to a number of digits a number has that many of them, or it is rounded up to the
next power of ten. -/
theorem roundedAt_bounds (h : d.coefficient ≠ 0) (places : Nat) :
    10 ^ places ≤ d.roundedAt (d.exponent - places) ∧
      d.roundedAt (d.exponent - places) ≤ 10 ^ (places + 1) := by
  have hten : (10 : ℚ) ≠ 0 := by norm_num
  have hunit : (0 : ℚ) < 10 ^ (d.exponent - places) := by positivity
  obtain ⟨hlow, hhigh⟩ := exponent_spec h
  obtain ⟨hround, hround'⟩ := abs_le.mp (d.abs_roundedAt_sub_le (d.exponent - places))
  have hlow : (10 : ℚ) ^ places ≤ d.toRat / 10 ^ (d.exponent - places) := by
    rw [le_div_iff₀ hunit, ← zpow_natCast, ← zpow_add₀ hten]
    simpa using hlow
  have hhigh : d.toRat / 10 ^ (d.exponent - places) < (10 : ℚ) ^ (places + 1) := by
    rw [div_lt_iff₀ hunit, ← zpow_natCast, ← zpow_add₀ hten,
      show ((places + 1 : Nat) : Int) + (d.exponent - places) = d.exponent + 1 by omega]
    exact hhigh
  constructor
  · have hlt : ((10 ^ places : Nat) : ℚ) < (d.roundedAt (d.exponent - places) + 1 : Nat) := by
      push_cast
      linarith
    exact Nat.lt_succ_iff.mp (by exact_mod_cast hlt)
  · have hlt : (d.roundedAt (d.exponent - places) : ℚ) < (10 ^ (places + 1) + 1 : Nat) := by
      push_cast
      linarith
    exact Nat.lt_succ_iff.mp (by exact_mod_cast hlt)

/-- Scientific notation writes the number rounded at its last digit. When that is the next power
of ten, the exponent moves. -/
theorem scientific_eq (h : d.coefficient ≠ 0) (places : Nat) : d.scientific places =
    if d.roundedAt (d.exponent - places) = 10 ^ (places + 1)
    then ⟨decimal (10 ^ places), d.exponent + 1⟩
    else ⟨decimal (d.roundedAt (d.exponent - places)), d.exponent⟩ := by
  have hexponent : d.exponent = (decimal d.coefficient).length - 1 - d.places := by
    rw [exponent, if_neg h]
  by_cases hfew : (decimal d.coefficient).length ≤ places + 1
  · -- There are no more digits than are wanted.
    have hround : d.roundedAt (d.exponent - places) =
        d.coefficient * 10 ^ (places + 1 - (decimal d.coefficient).length) := by
      rw [d.roundedAt_fine (by omega), show (-(d.exponent - places + d.places)).toNat =
        places + 1 - (decimal d.coefficient).length by omega]
    have hnot : d.roundedAt (d.exponent - places) ≠ 10 ^ (places + 1) := by
      have hlt := Nat.mul_lt_mul_of_pos_right (lt_pow_length_decimal d.coefficient)
        (Nat.pow_pos (n := places + 1 - (decimal d.coefficient).length) (by decide : 0 < 10))
      rw [← pow_add, Nat.add_sub_cancel' hfew, ← hround] at hlt
      exact hlt.ne
    simp only [scientific, if_neg h, if_pos hfew]
    rw [if_neg hnot, hround, decimal_append_zeros h]
  · have hround : d.roundedAt (d.exponent - places) =
        roundDiv d.coefficient (10 ^ ((decimal d.coefficient).length - (places + 1))) := by
      rw [d.roundedAt_coarse (by omega), show (d.exponent - places + d.places).toNat =
        (decimal d.coefficient).length - (places + 1) by omega]
    simp only [scientific, if_neg h, if_neg hfew, Nat.pow_eq, hround]

/-- Zero has only zeros for digits. -/
theorem scientific_zero (h : d.coefficient = 0) (places : Nat) :
    d.scientific places = ⟨zeros (places + 1), 0⟩ := by
  rw [scientific, if_pos h]

variable (d) in
/-- There are as many digits as are wanted. -/
theorem scientific_digits (places : Nat) :
    (d.scientific places).digits.length = places + 1 ∧
      ∀ b ∈ (d.scientific places).digits, isDigit b = true := by
  by_cases h : d.coefficient = 0
  · rw [scientific_zero h]
    exact ⟨length_zeros _, fun b => isDigit_of_mem_zeros⟩
  · obtain ⟨hlow, hhigh⟩ := roundedAt_bounds h places
    rw [scientific_eq h]
    by_cases hcarry : d.roundedAt (d.exponent - places) = 10 ^ (places + 1)
    · rw [if_pos hcarry]
      refine ⟨length_decimal_eq le_rfl ?_, isDigit_of_mem_decimal _⟩
      exact Nat.pow_lt_pow_right (by decide) (Nat.lt_succ_self _)
    · rw [if_neg hcarry]
      exact ⟨length_decimal_eq hlow (lt_of_le_of_ne hhigh hcarry), isDigit_of_mem_decimal _⟩

/-- The digits stand for the rounded number. -/
theorem toRat_scientific (h : d.coefficient ≠ 0) (places : Nat) :
    (d.scientific places).toRat =
      d.roundedAt (d.exponent - places) * 10 ^ (d.exponent - places) := by
  have hlength := (d.scientific_digits places).1
  rw [Scientific.toRat, hlength, scientific_eq h]
  by_cases hcarry : d.roundedAt (d.exponent - places) = 10 ^ (places + 1)
  · rw [if_pos hcarry, value_decimal, hcarry,
      show d.exponent + 1 + 1 - ((places + 1 : Nat) : Int) = 1 + (d.exponent - places) by omega,
      zpow_one_add₀ (by norm_num)]
    push_cast
    ring
  · rw [if_neg hcarry, value_decimal,
      show d.exponent + 1 - ((places + 1 : Nat) : Int) = d.exponent - places by omega]

theorem scientific_exponent (h : d.coefficient ≠ 0) (places : Nat) :
    (d.scientific places).exponent =
      if d.roundedAt (d.exponent - places) = 10 ^ (places + 1) then d.exponent + 1
      else d.exponent := by
  rw [scientific_eq h]
  split <;> rfl

/-- Scientific notation is within half a unit of its last digit. -/
theorem abs_toRat_scientific_sub_le (h : d.coefficient ≠ 0) (places : Nat) :
    |(d.scientific places).toRat - d.toRat| ≤ 10 ^ (d.exponent - places) / 2 := by
  have hunit : (0 : ℚ) < 10 ^ (d.exponent - places) := by positivity
  have hround := d.abs_roundedAt_sub_le (d.exponent - places)
  have hsplit : (d.scientific places).toRat - d.toRat =
      (d.roundedAt (d.exponent - places) - d.toRat / 10 ^ (d.exponent - places)) *
        10 ^ (d.exponent - places) := by
    rw [toRat_scientific h]
    field_simp
  rw [hsplit, abs_mul, abs_of_pos hunit]
  nlinarith

theorem toRat_eq_zero (h : d.coefficient = 0) : d.toRat = 0 := by
  rw [toRat, h, Nat.cast_zero, zero_div]

/-- Fixed notation with the last place of scientific notation shows the same number, also when
that is rounded up to a power of ten and has its last place one further to the left. -/
theorem toRat_fixed_eq_scientific (h : d.coefficient ≠ 0) {places kept : Nat}
    (hkept : (kept : Int) = places - (d.scientific places).exponent) :
    (d.fixed kept).toRat = (d.scientific places).toRat := by
  have hten : (10 : ℚ) ≠ 0 := by norm_num
  rw [toRat_scientific h]
  rw [scientific_exponent h] at hkept
  by_cases hcarry : d.roundedAt (d.exponent - places) = 10 ^ (places + 1)
  · rw [if_pos hcarry] at hkept
    have hround := d.abs_roundedAt_sub_le (d.exponent - places)
    rw [hcarry] at hround
    have hscale : d.toRat / 10 ^ (d.exponent - places) = 10 * (d.toRat * 10 ^ kept) := by
      rw [show d.exponent - (places : Int) = -(1 + (kept : Int)) by omega, zpow_neg,
        zpow_one_add₀ hten, zpow_natCast, div_inv_eq_mul]
      ring
    have hclose : |((10 ^ places : Nat) : ℚ) - d.toRat * 10 ^ kept| < 1 / 2 := by
      have hfactor : ((10 ^ (places + 1) : Nat) : ℚ) - 10 * (d.toRat * 10 ^ kept) =
          10 * (((10 ^ places : Nat) : ℚ) - d.toRat * 10 ^ kept) := by
        push_cast
        ring
      rw [hscale, hfactor, abs_mul, abs_of_pos (by norm_num : (0 : ℚ) < 10)] at hround
      linarith
    rw [toRat_fixed_eq d hclose, hcarry, show d.exponent - (places : Int) =
      -(1 + (kept : Int)) by omega, zpow_neg, zpow_one_add₀ hten, zpow_natCast]
    push_cast
    field_simp
    ring
  · rw [if_neg hcarry] at hkept
    rw [toRat_fixed, show d.exponent - (places : Int) = -(kept : Int) by omega, zpow_neg,
      zpow_natCast, div_eq_mul_inv]

end Decimal

end LeveledLog
