/-!
# Rounding quotients

The one rounding rule of the library: the nearest integer, a half going to the
even neighbour. Decimal, hexadecimal and binary roundings all go through it.
-/

namespace LeveledLog

/-- The integer nearest to `num / den`; of two equally near the even one. -/
def roundDiv (num den : Nat) : Nat :=
  let quotient := num / den
  let remainder := num % den
  if 2 * remainder < den then quotient
  else if den < 2 * remainder then quotient + 1
  else quotient + quotient % 2

/-- The rounded quotient is within half a unit of the exact one. -/
theorem roundDiv_near {num den : Nat} (h : 0 < den) :
    2 * (roundDiv num den * den) ≤ 2 * num + den ∧
      2 * num ≤ 2 * (roundDiv num den * den) + den := by
  have he : den * (num / den) + num % den = num := Nat.div_add_mod num den
  have hl : num % den < den := Nat.mod_lt _ h
  have hs (k : Nat) : (num / den + k) * den = den * (num / den) + k * den := by
    rw [Nat.add_mul, Nat.mul_comm]
  have h0 : num / den * den = den * (num / den) := Nat.mul_comm ..
  simp only [roundDiv]
  split
  · rw [h0]; omega
  · split
    · rw [hs]; omega
    · rcases Nat.mod_two_eq_zero_or_one (num / den) with hp | hp <;> rw [hp, hs] <;> omega

/-- A quotient that is half an integer goes to an even number. -/
theorem roundDiv_half_even {num den : Nat} (h : 2 * (num % den) = den) :
    roundDiv num den % 2 = 0 := by
  simp only [roundDiv, h, Nat.lt_irrefl, ite_false]
  omega

/-- An exact quotient is not moved. -/
theorem roundDiv_mul {den : Nat} (n : Nat) (h : 0 < den) : roundDiv (n * den) den = n := by
  simp only [roundDiv, Nat.mul_div_cancel _ h, Nat.mul_mod_left]
  rw [if_pos (by omega)]

end LeveledLog
