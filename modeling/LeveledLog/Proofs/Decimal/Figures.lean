import LeveledLog.Proofs.Binary64.Interval
import LeveledLog.Proofs.Decimal.ReadBack

/-!
# Figures of decimal numerals

The figures of a numeral are its digits from the first to the last one that is not zero. A
numeral stands for a natural number of so many digits, times a power of ten, and for none of fewer
digits. Scientific notation is never further from the number that is written than another numeral
with as many figures. So a numeral with fewer figures than the shortest text reads back only where
the nearest one does not, above the beginning of a run of equal gaps.
-/

namespace LeveledLog

open Numeral
open Binary64 (IsNearest valueAt infinity gap)

/-- Behind the last digit that is not zero there are zeros. -/
theorem exists_append_zeros (s : Bytes) : ∃ count, s = dropLastZeros s ++ zeros count := by
  obtain ⟨count, hsplit⟩ := exists_zeros_append s.reverse
  refine ⟨count, ?_⟩
  have hreverse := congrArg List.reverse hsplit
  rw [List.reverse_reverse, List.reverse_append, zeros, List.reverse_replicate] at hreverse
  exact hreverse

theorem last_dropLastZeros {s : Bytes} (h : dropLastZeros s ≠ []) :
    ∃ front b, dropLastZeros s = front ++ [b] ∧ b ≠ '0'.toUInt8 := by
  cases hrest : s.reverse.dropWhile (fun b => b == '0'.toUInt8) with
  | nil =>
    rw [dropLastZeros, hrest] at h
    exact absurd rfl h
  | cons b more =>
    refine ⟨more.reverse, b, ?_, head_dropZeros hrest⟩
    rw [dropLastZeros, hrest, List.reverse_cons]

namespace DecimalNumeral

/-- The digits from the first to the last one that is not zero. -/
def core (n : DecimalNumeral) : Bytes :=
  dropLastZeros (n.digits.dropWhile fun b => b == '0'.toUInt8)

/-- The number of digits from the first to the last one that is not zero. -/
def figures (n : DecimalNumeral) : Nat := n.core.length

variable {n : DecimalNumeral}

/-- The digits of a numeral are its figures between zeros. -/
theorem digits_eq (n : DecimalNumeral) :
    ∃ before after, n.digits = zeros before ++ (n.core ++ zeros after) := by
  obtain ⟨before, hbefore⟩ := exists_zeros_append n.digits
  obtain ⟨after, hafter⟩ := exists_append_zeros (n.digits.dropWhile fun b => b == '0'.toUInt8)
  refine ⟨before, after, ?_⟩
  conv_lhs => rw [hbefore, hafter]
  rfl

theorem IsFormed.isDigit_core (h : n.IsFormed) : ∀ b ∈ n.core, isDigit b = true := by
  obtain ⟨before, after, hdigits⟩ := n.digits_eq
  intro b hb
  refine h.2.1 b ?_
  rw [hdigits]
  exact List.mem_append_right _ (List.mem_append_left _ hb)

theorem IsFormed.value_core_lt (h : n.IsFormed) : value n.core < 10 ^ n.figures :=
  value_lt h.isDigit_core

/-- A numeral stands for the number of its figures, times a power of ten. -/
theorem exists_toRat_eq (n : DecimalNumeral) :
    ∃ place : Int, n.toRat = value n.core * 10 ^ place := by
  obtain ⟨before, after, hdigits⟩ := n.digits_eq
  have hvalue : value n.digits = value n.core * 10 ^ after := by
    rw [hdigits, value_append, value_zeros, Nat.zero_mul, Nat.zero_add, value_append, value_zeros,
      length_zeros, Nat.add_zero]
  refine ⟨after + (n.exponent.elim 0 ExponentPart.power - (n.fraction.getD []).length), ?_⟩
  rw [toRat, hvalue, zpow_add₀ (by norm_num), zpow_natCast]
  push_cast
  ring

/-- Figures begin with no zero, so that their number needs all of them. -/
theorem IsFormed.pow_le_value_core (h : n.IsFormed) (hne : n.core ≠ []) :
    10 ^ (n.figures - 1) ≤ value n.core := by
  obtain ⟨after, hafter⟩ := exists_append_zeros (n.digits.dropWhile fun b => b == '0'.toUInt8)
  obtain ⟨b, more, hcore⟩ := List.exists_cons_of_ne_nil hne
  have hsplit : n.digits.dropWhile (fun b => b == '0'.toUInt8) = b :: (more ++ zeros after) := by
    have hafter : n.digits.dropWhile (fun b => b == '0'.toUInt8) = n.core ++ zeros after := hafter
    rw [hafter, hcore, List.cons_append]
  rw [figures, hcore, List.length_cons, Nat.add_sub_cancel]
  exact pow_le_value (h.isDigit_core b (hcore ▸ List.mem_cons_self ..)) (head_dropZeros hsplit) more

/-- Figures end with no zero, so that their number is no multiple of ten. -/
theorem IsFormed.not_dvd_value_core (h : n.IsFormed) (hne : n.core ≠ []) :
    ¬ 10 ∣ value n.core := by
  obtain ⟨front, b, hcore, hb⟩ := last_dropLastZeros hne
  have hcore : n.core = front ++ [b] := hcore
  have hdigit : isDigit b = true := h.isDigit_core b (by simp [hcore])
  have hlow := digitValue_pos hdigit hb
  have hhigh := digitValue_le hdigit
  rw [hcore, value_concat]
  omega

/-- A numeral for a natural number below a power of ten, times some power of ten, has no more
figures than the first power says. -/
theorem IsFormed.figures_le (h : n.IsFormed) {k m : Nat} {place : Int} (hm : m < 10 ^ k)
    (hn : n.toRat = m * 10 ^ place) : n.figures ≤ k := by
  by_cases hne : n.core = []
  · rw [figures, hne]
    exact Nat.zero_le _
  · have hten : (10 : ℚ) ≠ 0 := by norm_num
    obtain ⟨own, hown⟩ := n.exists_toRat_eq
    have hlow := h.pow_le_value_core hne
    rw [hown] at hn
    rcases le_or_gt place own with hle | hgt
    · -- The natural number is a multiple of that of the figures.
      obtain ⟨shift, rfl⟩ : ∃ shift : Nat, own = place + shift := ⟨(own - place).toNat, by omega⟩
      have hmultiple : value n.core * 10 ^ shift = m := by
        rw [add_comm, zpow_add₀ hten, zpow_natCast, ← mul_assoc] at hn
        have := mul_right_cancel₀ (zpow_ne_zero place hten) hn
        exact_mod_cast this
      have hpow : 10 ^ (n.figures - 1) < 10 ^ k := by
        calc 10 ^ (n.figures - 1) ≤ value n.core * 10 ^ shift :=
              hlow.trans (Nat.le_mul_of_pos_right _ (by positivity))
          _ = m := hmultiple
          _ < 10 ^ k := hm
      have := (Nat.pow_lt_pow_iff_right (by decide)).mp hpow
      omega
    · obtain ⟨shift, rfl⟩ : ∃ shift : Nat, place = own + (shift + 1 : Nat) :=
        ⟨(place - own - 1).toNat, by omega⟩
      have hmultiple : value n.core = m * 10 ^ (shift + 1) := by
        rw [add_comm own, zpow_add₀ hten, zpow_natCast, ← mul_assoc] at hn
        have := mul_right_cancel₀ (zpow_ne_zero own hten) hn
        exact_mod_cast this
      refine absurd ?_ (h.not_dvd_value_core hne)
      rw [hmultiple, pow_succ', Nat.mul_left_comm]
      exact Nat.dvd_mul_right ..

end DecimalNumeral

/-! ## Scientific notation -/

/-- The number of a scientific text needs no more figures than it has digits. -/
theorem DecimalNumeral.IsFormed.figures_le_scientific {n : DecimalNumeral} (h : n.IsFormed)
    {s : Scientific} (hs : ∀ b ∈ s.digits, isDigit b = true) (hn : n.toRat = s.toRat) :
    n.figures ≤ s.digits.length := h.figures_le (value_lt hs) hn

namespace Decimal

variable {d : Decimal}

/-- No number of units is nearer than the rounded one. -/
theorem abs_roundedAt_sub_le_of (place : Int) (m : Nat) :
    |(d.roundedAt place : ℚ) - d.toRat / 10 ^ place| ≤ |(m : ℚ) - d.toRat / 10 ^ place| := by
  by_cases heq : m = d.roundedAt place
  · rw [heq]
  · have hround := d.abs_roundedAt_sub_le place
    have hapart : (1 : ℚ) ≤ |(m : ℚ) - d.roundedAt place| := by
      have hinteger : (1 : Int) ≤ |(m : Int) - d.roundedAt place| :=
        Int.one_le_abs (by omega)
      exact_mod_cast hinteger
    have hsum := abs_sub_le (m : ℚ) (d.toRat / 10 ^ place) (d.roundedAt place)
    rw [abs_sub_comm (d.toRat / 10 ^ place)] at hsum
    linarith

/-- No number with so many figures is nearer than scientific notation. -/
theorem abs_toRat_scientific_sub_le_of (h : d.coefficient ≠ 0) {places m : Nat}
    (hm : m < 10 ^ (places + 1)) (place : Int) :
    |(d.scientific places).toRat - d.toRat| ≤ |m * 10 ^ place - d.toRat| := by
  have hten : (10 : ℚ) ≠ 0 := by norm_num
  have hunit : (0 : ℚ) < 10 ^ (d.exponent - places) := by positivity
  have hscale (k : Nat) : |(k : ℚ) * 10 ^ (d.exponent - places) - d.toRat| =
      |(k : ℚ) - d.toRat / 10 ^ (d.exponent - places)| * 10 ^ (d.exponent - places) := by
    have hsplit : (k : ℚ) * 10 ^ (d.exponent - places) - d.toRat =
        (k - d.toRat / 10 ^ (d.exponent - places)) * 10 ^ (d.exponent - places) := by
      field_simp
    rw [hsplit, abs_mul, abs_of_pos hunit]
  have hgrid (k : Nat) : |(d.scientific places).toRat - d.toRat| ≤
      |(k : ℚ) * 10 ^ (d.exponent - places) - d.toRat| := by
    rw [toRat_scientific h, hscale, hscale]
    exact mul_le_mul_of_nonneg_right (abs_roundedAt_sub_le_of _ k) hunit.le
  rcases le_or_gt (d.exponent - places) place with hcoarse | hfine
  · obtain ⟨shift, rfl⟩ : ∃ shift : Nat, place = d.exponent - places + shift :=
      ⟨(place - (d.exponent - places)).toNat, by omega⟩
    have hon : (m : ℚ) * 10 ^ (d.exponent - places + shift) =
        (m * 10 ^ shift : Nat) * 10 ^ (d.exponent - places) := by
      rw [zpow_add₀ hten, zpow_natCast]
      push_cast
      ring
    rw [hon]
    exact hgrid _
  · -- The number is below the power of ten of the first digit, which scientific notation can write.
    obtain ⟨hlow, _⟩ := exponent_spec h
    have hfirst : ((10 ^ places : Nat) : ℚ) * 10 ^ (d.exponent - places) = 10 ^ d.exponent := by
      rw [Nat.cast_pow, ← zpow_natCast, Nat.cast_ofNat, ← zpow_add₀ hten]
      congr 1
      omega
    have hbelow : (m : ℚ) * 10 ^ place ≤ 10 ^ d.exponent := by
      have hm : (m : ℚ) ≤ 10 ^ (places + 1) := by exact_mod_cast hm.le
      calc (m : ℚ) * 10 ^ place ≤ 10 ^ (places + 1) * 10 ^ (d.exponent - places - 1) := by
            gcongr
            · norm_num
            · omega
        _ = 10 ^ d.exponent := by
            rw [← zpow_natCast, ← zpow_add₀ hten]
            congr 1
            push_cast
            ring
    refine (hgrid (10 ^ places)).trans ?_
    rw [hfirst, abs_of_nonpos (by linarith), abs_of_nonpos (by linarith)]
    linarith

end Decimal

namespace Binary64

variable {x : Binary64}

theorem coefficient_ne_zero (hne : x.magnitude ≠ 0) : x.toDyadic.toDecimal.coefficient ≠ 0 := by
  intro hzero
  have hvalue : valueAt x.magnitude = valueAt 0 := by
    rw [← toRat_toDecimal, Decimal.toRat_eq_zero hzero, valueAt_zero]
  exact hne (strictMono_valueAt.injective hvalue)

/-- A numeral that reads back and has no more figures than the shortest text has places lies above
the beginning of a run of equal gaps. -/
theorem of_figures_le_shortestPlaces {n : DecimalNumeral} (hx : x.magnitude < infinity)
    (hne : x.magnitude ≠ 0) (hn : n.IsFormed) (hfew : n.figures ≤ x.shortestPlaces)
    (hreads : IsNearest n.toRat x.magnitude) :
    x.fractionField = 0 ∧ 2 ≤ x.exponentField ∧ valueAt x.magnitude < n.toRat := by
  obtain ⟨_, _, hleast⟩ := shortestPlaces_spec hx
  obtain ⟨place, hplace⟩ := n.exists_toRat_eq
  have hfigures : 0 < n.figures := by
    refine List.length_pos_iff.mpr fun hnone => hne ?_
    have hzero : n.toRat = valueAt 0 := by
      have hvalue : value n.core = 0 := by rw [hnone]; rfl
      rw [hplace, hvalue, Nat.cast_zero, zero_mul, valueAt_zero]
    exact hreads.unique (hzero ▸ isNearest_valueAt (Nat.zero_le _))
  obtain ⟨places, hplaces⟩ := Nat.exists_eq_add_one_of_ne_zero hfigures.ne'
  have hnearest := hleast places (by omega)
  have hvalue : value n.core < 10 ^ (places + 1) := hplaces ▸ hn.value_core_lt
  have hcloser :=
    Decimal.abs_toRat_scientific_sub_le_of (coefficient_ne_zero hne) hvalue place
  rw [← hplace, toRat_toDecimal] at hcloser
  obtain ⟨q, hq⟩ := Nat.exists_eq_add_one_of_ne_zero hne
  by_contra hexception
  have hside : n.toRat ≤ valueAt x.magnitude ∨ gap q = gap (q + 1) := by
    by_cases hle : n.toRat ≤ valueAt x.magnitude
    · exact .inl hle
    · refine .inr (gap_eq_succ fun hrun => hexception ⟨?_, ?_, not_le.mp hle⟩)
      · rw [fractionField, hq]
        exact hrun.1
      · rw [exponentField, hq]
        exact hrun.2
  rw [hq] at hx hreads hcloser hside hnearest
  exact hnearest (hreads.closer hx hcloser hside)

end Binary64

end LeveledLog
