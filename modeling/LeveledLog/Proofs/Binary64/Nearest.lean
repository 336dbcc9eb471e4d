import LeveledLog.Proofs.Binary64.Pattern
import LeveledLog.Proofs.Rounding

/-!
# The nearest pattern of a quotient

The pattern that is computed for a quotient of natural numbers is the one that the quotient is
rounded to. The leading exponent puts the quotient into its run of equally spaced numbers,
where rounding a number is rounding to a natural number.
-/

namespace LeveledLog

namespace Dyadic

variable {num den : Nat}

/-- Scaling divides a quotient by a power of two. -/
theorem scale_ratio (num : Nat) (hden : 0 < den) (exponent : Int) :
    0 < (scale num den exponent).2 ∧
      ((scale num den exponent).1 : ℚ) / (scale num den exponent).2 =
        num / den / 2 ^ exponent := by
  constructor
  · exact Nat.mul_pos hden (Nat.pow_pos two_pos)
  · have hpos : (den : ℚ) ≠ 0 := by exact_mod_cast hden.ne'
    rw [zpow_eq_div two_ne_zero exponent]
    simp only [scale, Nat.pow_eq]
    push_cast
    field_simp

/-- A positive number lies between the powers of two at its logarithm. -/
theorem zpow_log2_le_lt {n : Nat} (hn : n ≠ 0) :
    (2 : ℚ) ^ (n.log2 : Int) ≤ n ∧ (n : ℚ) < 2 ^ ((n.log2 : Int) + 1) := by
  have hlow := Nat.log2_self_le hn
  have hhigh := Nat.lt_log2_self (n := n)
  exact ⟨by exact_mod_cast hlow, by exact_mod_cast hhigh⟩

/-- The two logarithms bound a quotient from both sides. -/
theorem zpow_log2_sub_le_div_lt (hnum : num ≠ 0) (hden : den ≠ 0) :
    (2 : ℚ) ^ ((num.log2 : Int) - den.log2 - 1) ≤ (num : ℚ) / den ∧
      (num : ℚ) / den < 2 ^ ((num.log2 : Int) - den.log2 + 1) := by
  obtain ⟨hnumlow, hnumhigh⟩ := zpow_log2_le_lt hnum
  obtain ⟨hdenlow, hdenhigh⟩ := zpow_log2_le_lt hden
  have hdenq : (0 : ℚ) < den := by exact_mod_cast Nat.pos_of_ne_zero hden
  constructor
  · rw [le_div_iff₀ hdenq]
    calc (2 : ℚ) ^ ((num.log2 : Int) - den.log2 - 1) * den
        ≤ 2 ^ ((num.log2 : Int) - den.log2 - 1) * 2 ^ ((den.log2 : Int) + 1) := by
          gcongr
      _ = 2 ^ (num.log2 : Int) := by
          rw [← zpow_add₀ two_ne_zero]
          congr 1
          ring
      _ ≤ num := hnumlow
  · rw [div_lt_iff₀ hdenq]
    calc (num : ℚ) < 2 ^ ((num.log2 : Int) + 1) := hnumhigh
      _ = 2 ^ ((num.log2 : Int) - den.log2 + 1) * 2 ^ (den.log2 : Int) := by
          rw [← zpow_add₀ two_ne_zero]
          congr 1
          ring
      _ ≤ 2 ^ ((num.log2 : Int) - den.log2 + 1) * den := by gcongr

/-- At its leading exponent a quotient has as many binary places before the point as the
precision says. -/
theorem leadingExponent_spec (precision : Nat) (hnum : num ≠ 0) (hden : den ≠ 0) :
    (2 : ℚ) ^ (leadingExponent precision num den + precision - 1) ≤ (num : ℚ) / den ∧
      (num : ℚ) / den < 2 ^ (leadingExponent precision num den + precision) := by
  have htwo (e : Int) : (0 : ℚ) < 2 ^ e := by positivity
  obtain ⟨hlow, hhigh⟩ := zpow_log2_sub_le_div_lt hnum hden
  -- One comparison decides between the two powers that are left.
  have hexponent : leadingExponent precision num den =
      if (scale num den ((num.log2 : Int) - den.log2 - precision)).1 <
        (scale num den ((num.log2 : Int) - den.log2 - precision)).2 * Nat.pow 2 precision
      then (num.log2 : Int) - den.log2 - precision
      else (num.log2 : Int) - den.log2 - precision + 1 := rfl
  rw [hexponent]
  generalize hguess : (num.log2 : Int) - den.log2 - precision = guess
  obtain ⟨hpos, hratio⟩ := scale_ratio num (Nat.pos_of_ne_zero hden) guess
  have hposq : (0 : ℚ) < (scale num den guess).2 := by exact_mod_cast hpos
  have hcompare : (scale num den guess).1 < (scale num den guess).2 * Nat.pow 2 precision ↔
      (num : ℚ) / den < 2 ^ ((num.log2 : Int) - den.log2) := by
    have hsum : (num.log2 : Int) - den.log2 = guess + precision := by omega
    rw [hsum, zpow_add₀ two_ne_zero, ← div_lt_iff₀' (htwo guess), ← hratio, div_lt_iff₀' hposq,
      zpow_natCast, Nat.pow_eq]
    norm_cast
  split
  case isTrue hless =>
    have hless := hcompare.mp hless
    constructor
    · rw [show guess + precision - 1 = (num.log2 : Int) - den.log2 - 1 by omega]
      exact hlow
    · rw [show guess + precision = (num.log2 : Int) - den.log2 by omega]
      exact hless
  case isFalse hnot =>
    have hnot := le_of_not_gt (mt hcompare.mpr hnot)
    constructor
    · rw [show guess + 1 + precision - 1 = (num.log2 : Int) - den.log2 by omega]
      exact hnot
    · rw [show guess + 1 + precision = (num.log2 : Int) - den.log2 + 1 by omega]
      exact hhigh

theorem den_pos (d : Dyadic) : 0 < d.den := Nat.pow_pos two_pos

/-- A dyadic number is the quotient of its numerator and its denominator. -/
theorem toRat_eq_div (d : Dyadic) : d.toRat = (d.num : ℚ) / d.den := by
  rw [toRat, zpow_eq_div two_ne_zero]
  simp only [num, den, Nat.pow_eq]
  push_cast
  ring

theorem floor_eq (d : Dyadic) : d.floor = ⌊d.toRat⌋₊ := by
  rw [toRat_eq_div, Nat.floor_div_eq_div, floor]

theorem atLeast_iff (d : Dyadic) (n : Nat) : d.atLeast n = true ↔ (n : ℚ) ≤ d.toRat := by
  have hden : (0 : ℚ) < d.den := by exact_mod_cast d.den_pos
  rw [toRat_eq_div, le_div_iff₀ hden, atLeast, decide_eq_true_eq]
  norm_cast

variable {precision : Nat} {least : Int}

/-- The nearest number is the rounded multiple of a power of two. -/
theorem nearest_of_ne_zero (precision : Nat) (least : Int) (hnum : num ≠ 0) (hden : 0 < den) :
    ∃ n d : Nat, 0 < d ∧
      (n : ℚ) / d = num / den / 2 ^ max (leadingExponent precision num den) least ∧
      (nearest precision least num den).toRat =
        roundDiv n d * 2 ^ max (leadingExponent precision num den) least := by
  obtain ⟨hpos, hratio⟩ := scale_ratio num hden (max (leadingExponent precision num den) least)
  refine ⟨_, _, hpos, hratio, ?_⟩
  rw [nearest, if_neg hnum, toRat]

/-- Rounding does not go below a natural number that needs no more bits than there are. -/
theorem le_toRat_nearest {n : Nat} (hprecision : 0 < precision) (hleast : least ≤ 0)
    (hden : 0 < den) (hn : n ≤ 2 ^ (precision - 1)) (h : (n : ℚ) ≤ num / den) :
    (n : ℚ) ≤ (nearest precision least num den).toRat := by
  by_cases hnum : num = 0
  · rw [hnum, Nat.cast_zero, zero_div] at h
    refine h.trans ?_
    rw [toRat]
    positivity
  obtain ⟨a, d, hpos, hratio, hnearest⟩ := nearest_of_ne_zero precision least hnum hden
  obtain ⟨hlow, _⟩ := leadingExponent_spec precision hnum hden.ne'
  generalize hexponent : max (leadingExponent precision num den) least = exponent at hratio hnearest
  have hunit : (0 : ℚ) < 2 ^ exponent := by positivity
  have hposq : (0 : ℚ) < d := by exact_mod_cast hpos
  have hround {m : Nat} (hm : (m : ℚ) * 2 ^ exponent ≤ num / den) :
      (m : ℚ) * 2 ^ exponent ≤ (nearest precision least num den).toRat := by
    rw [← le_div_iff₀ hunit, ← hratio, le_div_iff₀ hposq] at hm
    have hle : m ≤ roundDiv a d := le_roundDiv hpos (by exact_mod_cast hm)
    rw [hnearest]
    gcongr
  by_cases hfine : exponent ≤ 0
  · -- The natural number is a multiple of the power of two.
    have hexact : ((n * 2 ^ (-exponent).toNat : Nat) : ℚ) * 2 ^ exponent = n := by
      rw [zpow_eq_div two_ne_zero exponent, Int.toNat_eq_zero.mpr hfine]
      push_cast
      field_simp
    rw [← hexact]
    exact hround (hexact.symm ▸ h)
  · -- The quotient is not below a power of two that is no less than the natural number.
    have hlead : leadingExponent precision num den = exponent := by omega
    have hsum : exponent + precision - 1 = ((precision - 1 : Nat) : Int) + exponent := by omega
    rw [hlead, hsum, zpow_add₀ two_ne_zero, zpow_natCast] at hlow
    have hone : (1 : ℚ) ≤ 2 ^ exponent := one_le_zpow₀ one_le_two (by omega)
    have hn : (n : ℚ) ≤ (2 ^ (precision - 1) : Nat) := by exact_mod_cast hn
    calc (n : ℚ) ≤ (2 ^ (precision - 1) : Nat) := hn
      _ ≤ (2 ^ (precision - 1) : Nat) * 2 ^ exponent := le_mul_of_one_le_right (by positivity) hone
      _ ≤ (nearest precision least num den).toRat := hround (by push_cast; exact hlow)

/-- A number below a power of two is moved by no more than half the last place in front of it. -/
theorem toRat_nearest_le {k : Int} (hden : 0 < den) (hleast : least ≤ k - precision)
    (h : (num : ℚ) / den < 2 ^ k) :
    (nearest precision least num den).toRat ≤ num / den + 2 ^ (k - precision) / 2 := by
  by_cases hnum : num = 0
  · rw [nearest, if_pos hnum, toRat, Nat.cast_zero, zero_mul]
    positivity
  obtain ⟨a, d, hpos, hratio, hnearest⟩ := nearest_of_ne_zero precision least hnum hden
  obtain ⟨hlow, _⟩ := leadingExponent_spec precision hnum hden.ne'
  have hexponent : max (leadingExponent precision num den) least ≤ k - precision := by
    have := (zpow_lt_zpow_iff_right₀ one_lt_two).mp (hlow.trans_lt h)
    omega
  generalize max (leadingExponent precision num den) least = exponent at *
  have hunit : (0 : ℚ) < 2 ^ exponent := by positivity
  have hwide : (2 : ℚ) ^ exponent ≤ 2 ^ (k - precision) := zpow_le_zpow_right₀ one_le_two hexponent
  have hround : (roundDiv a d : ℚ) ≤ a / d + 1 / 2 := by
    have := (abs_le.mp (@abs_roundDiv_sub_le a d hpos)).2
    linarith
  calc (nearest precision least num den).toRat = roundDiv a d * 2 ^ exponent := hnearest
    _ ≤ (a / d + 1 / 2) * 2 ^ exponent := by gcongr
    _ = num / den + 2 ^ exponent / 2 := by
      rw [hratio]
      field_simp
    _ ≤ num / den + 2 ^ (k - precision) / 2 := by gcongr

end Dyadic

namespace Binary64

variable {r : ℚ} {p num den : Nat}

/-- Between the numbers of two patterns a number is rounded to the lower one when that is
nearer. -/
theorem isNearest_lower (hp : p < infinity) (hlow : valueAt p ≤ r)
    (h : 2 * (r - valueAt p) < gap p ∨ 2 * (r - valueAt p) = gap p ∧ Even p) : IsNearest r p := by
  have hbelow (q : Nat) : 2 * (valueAt p - r) < gap q := by
    have := gap_pos q
    linarith
  refine isNearest_of_half hp.le ?_ (fun q _ => (hbelow q).le) ?_
  · intro _
    exact h.elim le_of_lt fun h => h.1.le
  · intro hodd
    exact ⟨fun _ => (h.resolve_right fun h => hodd h.2).ne, fun q _ => (hbelow q).ne⟩

/-- Between the numbers of two patterns a number is rounded to the upper one when that is
nearer. -/
theorem isNearest_upper (hp : p < infinity) (hhigh : r < valueAt (p + 1))
    (h : gap p < 2 * (r - valueAt p) ∨ 2 * (r - valueAt p) = gap p ∧ Even (p + 1)) :
    IsNearest r (p + 1) := by
  have hstep := valueAt_succ p
  have habove : 2 * (r - valueAt (p + 1)) < gap (p + 1) := by
    have := gap_pos (p + 1)
    linarith
  refine isNearest_of_half hp (fun _ => habove.le) ?_ ?_
  · rintro q ⟨rfl⟩
    rcases h with h | ⟨h, _⟩ <;> linarith
  · intro hodd
    refine ⟨fun _ => habove.ne, ?_⟩
    rintro q ⟨rfl⟩ heq
    have := h.resolve_right fun h => hodd h.2
    linarith

/-- A number that is not below that of infinity is rounded to infinity. -/
theorem isNearest_infinity (h : valueAt infinity ≤ r) : IsNearest r infinity := by
  have hbelow (q : Nat) : 2 * (valueAt infinity - r) < gap q := by
    have := gap_pos q
    linarith
  refine isNearest_of_half le_rfl (fun hlt => absurd hlt (lt_irrefl _))
    (fun q _ => (hbelow q).le) fun _ => ?_
  exact ⟨fun hlt => absurd hlt (lt_irrefl _), fun q _ => (hbelow q).ne⟩

/-- In a run of equally spaced numbers, the remainder of a quotient says how far its number is
from the place below it. -/
theorem rest_of_place {run n d : Nat} (hd : 0 < d) (hrun : run = 0 ∨ fractions ≤ n / d)
    (hplace : n / d < 2 * fractions)
    (hr : r = (n : ℚ) / d * 2 ^ ((run : Int) + leastExponent)) :
    2 * (r - valueAt (run * fractions + n / d)) =
      (2 * (n % d) : Nat) / d * gap (run * fractions + n / d) := by
  have hdq : (d : ℚ) ≠ 0 := by exact_mod_cast hd.ne'
  have hdiv : (n : ℚ) = d * (n / d : Nat) + (n % d : Nat) := by
    exact_mod_cast (Nat.div_add_mod n d).symm
  have hsplit : (n : ℚ) / d = (n / d : Nat) + (n % d : Nat) / d := by
    rw [div_eq_iff hdq, add_mul, div_mul_cancel₀ _ hdq, mul_comm]
    exact hdiv
  rw [hr, valueAt_place hrun hplace.le, gap_place hrun hplace, hsplit]
  push_cast
  ring

/-- In a run of equally spaced numbers a quotient is rounded to the place that is the rounded
quotient. -/
theorem isNearest_place {run n d : Nat} (hd : 0 < d) (hrun : run = 0 ∨ fractions ≤ n / d)
    (hplace : n / d < 2 * fractions)
    (hr : r = (n : ℚ) / d * 2 ^ ((run : Int) + leastExponent)) :
    IsNearest r (min (run * fractions + roundDiv n d) infinity) := by
  have hdq : (0 : ℚ) < d := by exact_mod_cast hd
  have heven : Even (run * fractions) := by
    rw [Nat.even_mul]
    exact .inr (by decide)
  have hrest := rest_of_place hd hrun hplace hr
  have hcases := roundDiv_cases n d
  generalize roundDiv n d = rounded at hcases
  have hgap := gap_pos (run * fractions + n / d)
  have hlow : valueAt (run * fractions + n / d) ≤ r := by
    have : (0 : ℚ) ≤ (2 * (n % d) : Nat) / d * gap (run * fractions + n / d) := by positivity
    linarith
  have hhigh : r < valueAt (run * fractions + n / d + 1) := by
    have hfraction : ((2 * (n % d) : Nat) : ℚ) / d < 2 := by
      have := Nat.mod_lt n hd
      rw [div_lt_iff₀ hdq]
      exact_mod_cast (by omega : 2 * (n % d) < 2 * d)
    have := mul_lt_mul_of_pos_right hfraction hgap
    rw [valueAt_succ]
    linarith
  by_cases hin : run * fractions + n / d < infinity
  · rcases hcases with ⟨hless, rfl⟩ | ⟨hmore, rfl⟩ | ⟨htie, rfl⟩
    · rw [min_eq_left hin.le]
      refine isNearest_lower hin hlow (.inl ?_)
      rw [hrest]
      refine mul_lt_of_lt_one_left hgap ?_
      rw [div_lt_one hdq]
      exact_mod_cast hless
    · rw [← Nat.add_assoc, min_eq_left hin]
      refine isNearest_upper hin hhigh (.inl ?_)
      rw [hrest]
      refine lt_mul_of_one_lt_left hgap ?_
      rw [one_lt_div hdq]
      exact_mod_cast hmore
    · rw [htie, div_self hdq.ne', one_mul] at hrest
      rcases Nat.mod_two_eq_zero_or_one (n / d) with hparity | hparity
      · rw [hparity, Nat.add_zero, min_eq_left hin.le]
        have hsum := heven.add (Nat.even_iff.mpr hparity)
        exact isNearest_lower hin hlow (.inr ⟨hrest, hsum⟩)
      · rw [hparity, ← Nat.add_assoc, min_eq_left hin]
        have hsum := heven.add (Nat.even_add_one.mpr (Nat.not_even_iff.mpr hparity))
        rw [← Nat.add_assoc] at hsum
        exact isNearest_upper hin hhigh (.inr ⟨hrest, hsum⟩)
  · have hround : n / d ≤ rounded := by omega
    rw [min_eq_right (by omega)]
    exact isNearest_infinity ((strictMono_valueAt.monotone (Nat.le_of_not_lt hin)).trans hlow)

/-- The pattern that is computed for a quotient is the one that it is rounded to. -/
theorem isNearest_nearestMagnitude (num : Nat) (hden : 0 < den) :
    IsNearest ((num : ℚ) / den) (nearestMagnitude num den) := by
  by_cases hnum : num = 0
  · have hzero : nearestMagnitude num den = 0 := by
      simp [nearestMagnitude, Dyadic.nearest, hnum]
    have hvalue : (num : ℚ) / den = valueAt 0 := by rw [hnum, valueAt_zero, Nat.cast_zero, zero_div]
    rw [hzero, hvalue]
    exact isNearest_valueAt (Nat.zero_le _)
  · obtain ⟨hlow, hhigh⟩ := Dyadic.leadingExponent_spec 53 hnum hden.ne'
    generalize hexponent :
      max (Dyadic.leadingExponent 53 num den) leastExponent = exponent
    obtain ⟨run, rfl⟩ : ∃ run : Nat, exponent = run + leastExponent :=
      ⟨(exponent - leastExponent).toNat, by omega⟩
    obtain ⟨hpos, hratio⟩ := Dyadic.scale_ratio num hden (run + leastExponent)
    have hnearest : nearestMagnitude num den = min (run * fractions + roundDiv
        (Dyadic.scale num den (run + leastExponent)).1
        (Dyadic.scale num den (run + leastExponent)).2) infinity := by
      simp only [nearestMagnitude, Dyadic.nearest, if_neg hnum, hexponent, Int.add_sub_cancel,
        Int.toNat_natCast]
    rw [hnearest]
    have hposq : (0 : ℚ) < (Dyadic.scale num den (run + leastExponent)).2 := by
      exact_mod_cast hpos
    have hunit : (0 : ℚ) < 2 ^ ((run : Int) + leastExponent) := by positivity
    refine isNearest_place hpos ?_ ?_ ?_
    · by_cases hrun : run = 0
      · exact .inl hrun
      · right
        -- Above the first run the exponent is the leading one.
        have hlead : Dyadic.leadingExponent 53 num den = run + leastExponent := by omega
        rw [hlead, show (run : Int) + leastExponent + (53 : Nat) - 1 =
          run + leastExponent + (52 : Nat) by omega, zpow_add₀ two_ne_zero, mul_comm,
          ← le_div_iff₀ hunit, ← hratio, le_div_iff₀ hposq, zpow_natCast] at hlow
        rw [Nat.le_div_iff_mul_le hpos]
        exact_mod_cast hlow
    · have hbound : (2 : ℚ) ^ (Dyadic.leadingExponent 53 num den + (53 : Nat)) ≤
          2 ^ ((run : Int) + leastExponent + (53 : Nat)) :=
        zpow_le_zpow_right₀ one_le_two (by omega)
      have hhigh := hhigh.trans_le hbound
      rw [zpow_add₀ two_ne_zero, mul_comm, ← div_lt_iff₀ hunit, ← hratio, div_lt_iff₀ hposq,
        zpow_natCast] at hhigh
      rw [Nat.div_lt_iff_lt_mul hpos]
      exact_mod_cast hhigh
    · rw [hratio, div_mul_cancel₀ _ hunit.ne']

/-- A whole number of 64 bits is not rounded to infinity. -/
theorem nearestMagnitude_lt_infinity {n : Nat} (h : n ≤ 2 ^ 64) :
    nearestMagnitude n 1 < infinity := by
  have hnearest := isNearest_nearestMagnitude n Nat.one_pos
  refine lt_of_le_of_ne hnearest.inRange fun hinfinity => ?_
  have hnear := hnearest.near 0 (Nat.zero_le _)
  have hvalue : valueAt infinity = fractions * 2 ^ (((2046 : Nat) : Int) + leastExponent) :=
    @valueAt_place 2046 fractions (.inr le_rfl) (by decide)
  have hpower : (2 : ℚ) ^ (14 : Int) ≤ 2 ^ (((2046 : Nat) : Int) + leastExponent) :=
    zpow_le_zpow_right₀ one_le_two (by decide)
  have hn : (n : ℚ) ≤ 2 ^ 64 := by exact_mod_cast h
  have hfractions : (fractions : ℚ) = 2 ^ 52 := by norm_num [fractions]
  have hfar : (2 : ℚ) ^ 66 ≤ valueAt infinity := by
    rw [hvalue, hfractions]
    calc (2 : ℚ) ^ 66 = 2 ^ 52 * 2 ^ (14 : Int) := by norm_num
      _ ≤ 2 ^ 52 * 2 ^ (((2046 : Nat) : Int) + leastExponent) := by gcongr
  -- Zero is nearer to the number than infinity.
  have habs : |(n : ℚ)| = n := abs_of_nonneg n.cast_nonneg
  rw [hinfinity, valueAt_zero, Nat.cast_one, div_one, sub_zero, habs] at hnear
  have := (abs_le.mp hnear).1
  linarith

/-- The bits of a rounded quotient are its pattern and the sign bit. -/
theorem toNat_bits_ofRatio (negative : Bool) (num den : Nat) :
    (ofRatio negative num den).bits.toNat =
      nearestMagnitude num den + (if negative then signBit else 0) ∧
        nearestMagnitude num den < signBit := by
  have hle : nearestMagnitude num den ≤ infinity := Nat.min_le_right ..
  have hbits : (ofRatio negative num den).bits.toNat =
      (nearestMagnitude num den + if negative then signBit else 0) % 2 ^ 64 := UInt64.toNat_ofNat'
  rw [hbits]
  unfold infinity fractions at hle
  unfold signBit
  split <;> omega

/-- The sign bit leaves the rest of the pattern as it is. -/
theorem magnitude_ofRatio (negative : Bool) (num den : Nat) :
    (ofRatio negative num den).magnitude = nearestMagnitude num den := by
  obtain ⟨hbits, hlt⟩ := toNat_bits_ofRatio negative num den
  rw [magnitude, hbits]
  split
  · rw [Nat.add_mod_right, Nat.mod_eq_of_lt hlt]
  · rw [Nat.add_zero, Nat.mod_eq_of_lt hlt]

theorem negative_ofRatio (negative : Bool) (num den : Nat) :
    (ofRatio negative num den).negative = negative := by
  obtain ⟨hbits, hlt⟩ := toNat_bits_ofRatio negative num den
  rw [Binary64.negative, hbits]
  cases negative <;> simp [hlt]

end Binary64

end LeveledLog
