import LeveledLog.Proofs.Binary64.Nearest
import LeveledLog.Proofs.Decimal.Notation

/-!
# Shortest texts read back

Seventeen digits always tell a binary64 number from its neighbours, so the search for the fewest
digits that read back ends with success. What it finds is laid out in fixed or in scientific
notation, and the two layouts show the same number.
-/

namespace LeveledLog

open Numeral
open Binary64 (IsNearest valueAt infinity exists_valueAt_eq isNearest_valueAt)

/-- What a scientific numeral is read back as is the pattern that its number is rounded to. -/
theorem Scientific.isNearest (s : Scientific) : IsNearest s.toRat s.nearestMagnitude := by
  have hpos : 0 < Nat.pow 10 (-(s.exponent + 1 - s.digits.length)).toNat := Nat.pow_pos (by decide)
  have hnearest := Binary64.isNearest_nearestMagnitude
    (value s.digits * Nat.pow 10 (s.exponent + 1 - s.digits.length).toNat) hpos
  have hvalue : s.toRat =
      ((value s.digits * Nat.pow 10 (s.exponent + 1 - s.digits.length).toNat : Nat) : ℚ) /
        (Nat.pow 10 (-(s.exponent + 1 - s.digits.length)).toNat : Nat) := by
    rw [toRat, zpow_eq_div (by norm_num)]
    simp only [Nat.pow_eq]
    push_cast
    rw [mul_div_assoc]
  rw [hvalue]
  exact hnearest

namespace Binary64

variable {x : Binary64} {places : Nat}

/-- The number as a decimal fraction, without its sign. -/
theorem toRat_toDecimal (x : Binary64) : x.toDyadic.toDecimal.toRat = valueAt x.magnitude := by
  rw [Dyadic.toRat_toDecimal, toRat_toDyadic]

/-- The number rounded to some digits is read back as itself exactly when its text is rounded to
its pattern. -/
theorem readsBackAt_iff : x.readsBackAt places = true ↔
    IsNearest (x.toDyadic.toDecimal.scientific places).toRat x.magnitude := by
  have hnearest := (x.toDyadic.toDecimal.scientific places).isNearest
  unfold readsBackAt
  rw [beq_iff_eq]
  constructor
  · intro h
    rwa [h] at hnearest
  · exact hnearest.unique

private theorem toRat_scientific_zero (h : x.toDyadic.toDecimal.coefficient = 0) (places : Nat) :
    (x.toDyadic.toDecimal.scientific places).toRat = valueAt x.magnitude := by
  rw [← toRat_toDecimal, Decimal.toRat_eq_zero h, Decimal.scientific_zero h, Scientific.toRat,
    value_zeros, Nat.cast_zero, zero_mul]

/-- Seventeen digits are enough. -/
theorem readsBackAt_sixteen (hx : x.magnitude < infinity) : x.readsBackAt 16 = true := by
  rw [readsBackAt_iff]
  by_cases hzero : x.toDyadic.toDecimal.coefficient = 0
  · rw [toRat_scientific_zero hzero]
    exact isNearest_valueAt hx.le
  · apply isNearest_of_relative hx
    obtain ⟨hlow, _⟩ := Decimal.exponent_spec hzero
    have herror := Decimal.abs_toRat_scientific_sub_le hzero 16
    rw [toRat_toDecimal] at hlow herror
    have hpower : (0 : ℚ) < 10 ^ x.toDyadic.toDecimal.exponent := by positivity
    -- Half a unit of the seventeenth digit is less than one part in `2 ^ 54` of the number.
    have hunit : (10 : ℚ) ^ (x.toDyadic.toDecimal.exponent - (16 : Nat)) =
        10 ^ x.toDyadic.toDecimal.exponent / 10 ^ 16 := by
      rw [zpow_sub₀ (by norm_num), zpow_natCast]
    rw [hunit] at herror
    refine lt_of_le_of_lt herror ?_
    linarith

/-- The fewest digits that read back are found, and they are at most seventeen. -/
theorem shortestPlaces_spec (hx : x.magnitude < infinity) :
    x.shortestPlaces ≤ 16 ∧
      IsNearest (x.toDyadic.toDecimal.scientific x.shortestPlaces).toRat x.magnitude ∧
      ∀ places < x.shortestPlaces,
        ¬ IsNearest (x.toDyadic.toDecimal.scientific places).toRat x.magnitude := by
  simp only [← readsBackAt_iff, Bool.not_eq_true]
  unfold shortestPlaces
  cases hfind : (List.range 16).find? x.readsBackAt with
  | none =>
    rw [List.find?_range_eq_none] at hfind
    refine ⟨le_rfl, readsBackAt_sixteen hx, fun places hlt => ?_⟩
    simpa using hfind places hlt
  | some places =>
    rw [List.find?_range_eq_some] at hfind
    obtain ⟨hreads, hmem, hleast⟩ := hfind
    refine ⟨(List.mem_range.mp hmem).le, hreads, fun fewer hlt => ?_⟩
    simpa using hleast fewer hlt

/-! ## The layout -/

/-- A text below a million that reads back and has no digit behind its point stands for the
number itself. -/
theorem valueAt_eq_of_natural {n : Nat} (hn : n < 10 ^ 6)
    (h : IsNearest (n : ℚ) x.magnitude) : valueAt x.magnitude = n := by
  obtain ⟨p, hp, hvalue⟩ := exists_valueAt_eq (n := n) (hn.trans (by decide))
  have hexact : IsNearest (n : ℚ) p := hvalue ▸ isNearest_valueAt hp.le
  rw [h.unique hexact, hvalue]

/-- Fixed notation with the last place of a scientific text that reads back shows the number of
that text, if its exponent is below six. A place before the point is not rounded to, but then the
text is exact. -/
theorem toRat_fixed_eq_readsBack
    (h : IsNearest (x.toDyadic.toDecimal.scientific places).toRat x.magnitude)
    (hsmall : (x.toDyadic.toDecimal.scientific places).exponent < 6) :
    (x.toDyadic.toDecimal.fixed
      ((places : Int) - (x.toDyadic.toDecimal.scientific places).exponent).toNat).toRat =
        (x.toDyadic.toDecimal.scientific places).toRat := by
  by_cases hzero : x.toDyadic.toDecimal.coefficient = 0
  · have hnumber := Decimal.toRat_eq_zero hzero
    rw [toRat_scientific_zero hzero, ← toRat_toDecimal, hnumber, Decimal.toRat_fixed_eq (n := 0)]
    · rw [Nat.cast_zero, zero_div]
    · rw [hnumber]
      norm_num
  by_cases hbehind : (x.toDyadic.toDecimal.scientific places).exponent ≤ places
  · exact Decimal.toRat_fixed_eq_scientific hzero (Int.toNat_of_nonneg (by omega))
  · -- The last digit of the scientific text stands before the point.
    obtain ⟨hlength, hdigits⟩ := x.toDyadic.toDecimal.scientific_digits places
    generalize x.toDyadic.toDecimal.scientific places = s at *
    obtain ⟨shift, hshift⟩ : ∃ shift : Nat, s.exponent = places + shift :=
      ⟨(s.exponent - places).toNat, by omega⟩
    have hnatural : s.toRat = (value s.digits * 10 ^ shift : Nat) := by
      rw [Scientific.toRat, hlength, hshift,
        show (places : Int) + shift + 1 - (places + 1 : Nat) = shift by omega, zpow_natCast]
      push_cast
      rfl
    have hbound : value s.digits * 10 ^ shift < 10 ^ 6 := by
      have hvalue := value_lt hdigits
      rw [hlength] at hvalue
      calc value s.digits * 10 ^ shift < 10 ^ (places + 1) * 10 ^ shift :=
            Nat.mul_lt_mul_of_pos_right hvalue (by positivity)
        _ = 10 ^ (places + 1 + shift) := (pow_add ..).symm
        _ ≤ 10 ^ 6 := Nat.pow_le_pow_right (by decide) (by omega)
    rw [hnatural] at h ⊢
    have hexact := valueAt_eq_of_natural hbound h
    rw [Int.toNat_eq_zero.mpr (by omega), Decimal.toRat_fixed_eq
      (n := value s.digits * 10 ^ shift), pow_zero, div_one]
    rw [toRat_toDecimal, hexact, pow_zero, mul_one, sub_self, abs_zero]
    norm_num

private theorem nearestMagnitude_tenThousandth :
    nearestMagnitude 1 10000 = 0x3F1A36E2EB1C432D := by decide +kernel

/-- A text that reads back is rounded up neither to the first number in fixed notation nor to
the first one behind them: the nearest pattern to the one is above it, and the other is exact. -/
theorem readsBack_not_bound {exponent : Int}
    (h : IsNearest ((10 : ℚ) ^ exponent) x.magnitude)
    (hbelow : valueAt x.magnitude < 10 ^ exponent) :
    exponent ≠ -4 ∧ exponent ≠ 6 := by
  constructor
  · rintro rfl
    have hnearest := isNearest_nearestMagnitude 1 (by decide : 0 < 10000)
    rw [nearestMagnitude_tenThousandth] at hnearest
    have hsame : ((10 : ℚ) ^ (-4 : Int)) = ((1 : Nat) : ℚ) / (10000 : Nat) := by norm_num
    rw [hsame] at h hbelow
    rw [h.unique hnearest] at hbelow
    norm_num [valueAt, gap, fractions, leastExponent] at hbelow
  · rintro rfl
    obtain ⟨p, hp, hvalue⟩ := exists_valueAt_eq (n := 10 ^ 6) (by decide)
    have hsame : ((10 : ℚ) ^ (6 : Int)) = valueAt p := by
      rw [hvalue]
      norm_num
    rw [hsame] at h hbelow
    rw [h.unique (isNearest_valueAt hp.le)] at hbelow
    exact lt_irrefl _ hbelow

/-- Whether a text that reads back is laid out in scientific notation is decided by the first
digit of the number itself. -/
theorem scientific_layout_iff
    (h : IsNearest (x.toDyadic.toDecimal.scientific places).toRat x.magnitude) :
    ((x.toDyadic.toDecimal.scientific places).exponent < -4 ∨
        scientificFrom ≤ (x.toDyadic.toDecimal.scientific places).exponent) ↔
      valueAt x.magnitude ≠ 0 ∧ (Int.log 10 (valueAt x.magnitude) < -4 ∨
        6 ≤ Int.log 10 (valueAt x.magnitude)) := by
  unfold scientificFrom
  by_cases hzero : x.toDyadic.toDecimal.coefficient = 0
  · have hnumber : valueAt x.magnitude = 0 := by
      rw [← toRat_toDecimal, Decimal.toRat_eq_zero hzero]
    rw [Decimal.scientific_zero hzero]
    simp [hnumber]
  · obtain ⟨hlow, hhigh⟩ := Decimal.exponent_spec hzero
    have hpos : 0 < x.toDyadic.toDecimal.toRat := lt_of_lt_of_le (by positivity) hlow
    rw [← toRat_toDecimal, ← Decimal.exponent_eq_log hzero, Decimal.scientific_exponent hzero]
    have hne : x.toDyadic.toDecimal.toRat ≠ 0 := hpos.ne'
    by_cases hcarry : x.toDyadic.toDecimal.roundedAt
        (x.toDyadic.toDecimal.exponent - places) = 10 ^ (places + 1)
    · have hpower : (x.toDyadic.toDecimal.scientific places).toRat =
          10 ^ (x.toDyadic.toDecimal.exponent + 1) := by
        rw [Decimal.toRat_scientific hzero, hcarry]
        push_cast
        rw [← zpow_natCast, ← zpow_add₀ (by norm_num)]
        congr 1
        push_cast
        ring
      rw [hpower] at h
      rw [toRat_toDecimal] at hhigh
      obtain ⟨hfirst, hsecond⟩ := readsBack_not_bound h hhigh
      rw [if_pos hcarry]
      constructor
      · intro hlayout
        exact ⟨hne, by omega⟩
      · rintro ⟨_, hlayout⟩
        omega
    · rw [if_neg hcarry]
      exact (and_iff_right hne).symm

/-- The shortest text is a numeral of at most seventeen significant digits. It stands for the
same number as the scientific text with the fewest digits that read back, in either layout. -/
theorem exists_shortest_numeral (hx : x.magnitude < infinity) (upper : Bool) :
    ∃ n : DecimalNumeral, n.text = x.shortest upper ∧ n.IsFormed ∧ n.significant ≤ 17 ∧
      n.toRat = (x.toDyadic.toDecimal.scientific x.shortestPlaces).toRat ∧
      (n.exponent.isSome = true ↔ valueAt x.magnitude ≠ 0 ∧
        (Int.log 10 (valueAt x.magnitude) < -4 ∨ 6 ≤ Int.log 10 (valueAt x.magnitude))) := by
  obtain ⟨hplaces, hreads, _⟩ := shortestPlaces_spec hx
  have hlayout := scientific_layout_iff hreads
  have hfixed := toRat_fixed_eq_readsBack hreads
  obtain ⟨hlength, hdigits⟩ := x.toDyadic.toDecimal.scientific_digits x.shortestPlaces
  have hshortest : x.shortest upper =
      if (x.toDyadic.toDecimal.scientific x.shortestPlaces).exponent < -4 ∨
        scientificFrom ≤ (x.toDyadic.toDecimal.scientific x.shortestPlaces).exponent
      then (x.toDyadic.toDecimal.scientific x.shortestPlaces).text upper false
      else (x.toDyadic.toDecimal.fixed ((x.shortestPlaces : Int) -
        (x.toDyadic.toDecimal.scientific x.shortestPlaces).exponent).toNat).text false := rfl
  rw [hshortest]
  generalize x.toDyadic.toDecimal.scientific x.shortestPlaces = s at *
  have hne : s.digits ≠ [] := List.length_pos_iff.mp (hlength ▸ Nat.succ_pos _)
  by_cases hscientific : s.exponent < -4 ∨ scientificFrom ≤ s.exponent
  · have hsignificant := DecimalNumeral.significant_ofScientific_le upper false s
    rw [if_pos hscientific]
    exact ⟨.ofScientific upper false s, DecimalNumeral.text_ofScientific ..,
      DecimalNumeral.isFormed_ofScientific _ _ _ hne hdigits, by omega,
      DecimalNumeral.toRat_ofScientific _ _ _ hne, iff_of_true rfl (hlayout.mp hscientific)⟩
  · have hsmall : s.exponent < 6 := by
      unfold scientificFrom at hscientific
      omega
    have hnumber := hfixed hsmall
    rw [if_neg hscientific]
    generalize hkept : ((x.shortestPlaces : Int) - s.exponent).toNat = kept at *
    obtain ⟨_, hfraction, hwhole, hall⟩ := x.toDyadic.toDecimal.fixed_digits kept
    refine ⟨.ofPositional false _, DecimalNumeral.text_ofPositional ..,
      DecimalNumeral.isFormed_ofPositional _ _ hwhole hall, ?_,
      (DecimalNumeral.toRat_ofPositional _ _).trans hnumber,
      iff_of_false Bool.false_ne_true (mt hlayout.mpr hscientific)⟩
    -- The places behind the point end with the seventeenth digit or there are none.
    refine DecimalNumeral.significant_ofPositional_le _ _ hall ?_
    rw [hnumber, hfraction]
    exact (Scientific.toRat_lt hdigits).trans_le (zpow_le_zpow_right₀ (by norm_num) (by omega))

end Binary64

end LeveledLog
