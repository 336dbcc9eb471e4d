import LeveledLog.Proofs.Binary64.Nearest
import LeveledLog.Proofs.Duration

/-!
# Durations saturate

A count of a unit becomes the whole number of nanoseconds toward zero, or the end of the range that
is nearest to it. The range is tested in a wider format than the one of the product that is kept.
Just below the upper end the product is rounded up to a number that does not fit, but the binary
numbers lie so that no count has its product there.
-/

namespace LeveledLog

/-- The integer next to a number on the side of zero. -/
def towardZero (r : ℚ) : ℤ := if r < 0 then ⌈r⌉ else ⌊r⌋

theorem towardZero_mono : Monotone towardZero := by
  intro r s h
  unfold towardZero
  split_ifs with hr hs hs
  · exact Int.ceil_mono h
  · exact (Int.ceil_nonpos.mpr hr.le).trans (Int.floor_nonneg.mpr (le_of_not_gt hs))
  · exact absurd (h.trans_lt hs) hr
  · exact Int.floor_mono h

/-- The integer of a sign and an absolute value. -/
def signedInt (negative : Bool) (n : Nat) : ℤ := if negative then -n else n

theorem towardZero_of_nonneg (negative : Bool) {r : ℚ} (h : 0 ≤ r) :
    towardZero (if negative then -r else r) = signedInt negative ⌊r⌋₊ := by
  have hfloor : (⌊r⌋₊ : ℤ) = ⌊r⌋ := Int.natCast_floor_eq_floor h
  unfold towardZero signedInt
  cases negative with
  | false => simp [not_lt.mpr h, hfloor]
  | true =>
    rcases h.eq_or_lt with rfl | hpos
    · simp
    · simp [hpos, hfloor, Int.ceil_neg]

namespace Binary64

variable {x y product other : Binary64} {n : Nat}

/-- The number of a pattern. The infinities count as the powers of two behind the greatest
numbers. -/
def toRat (x : Binary64) : ℚ := if x.negative then -valueAt x.magnitude else valueAt x.magnitude

/-- A binary64 number is the product of another one with a natural number: it is the one that the
exact product is rounded to. -/
structure IsProduct (x : Binary64) (n : Nat) (product : Binary64) : Prop where
  negative : product.negative = x.negative
  isNearest : IsNearest (valueAt x.magnitude * n) product.magnitude

theorem valueAt_nonneg (p : Nat) : 0 ≤ valueAt p := by
  rw [← valueAt_zero]
  exact strictMono_valueAt.monotone (Nat.zero_le p)

theorem IsProduct.valueAt_le (h : x.IsProduct n product) (h' : y.IsProduct n other)
    (hle : valueAt x.magnitude ≤ valueAt y.magnitude) :
    valueAt product.magnitude ≤ valueAt other.magnitude := by
  have hn : (0 : ℚ) ≤ n := Nat.cast_nonneg n
  exact strictMono_valueAt.monotone
    (h.isNearest.mono h'.isNearest (mul_le_mul_of_nonneg_right hle hn))

theorem IsProduct.valueAt_eq_zero (h : x.IsProduct n product) (hzero : valueAt x.magnitude = 0) :
    valueAt product.magnitude = 0 := by
  have hnearest := h.isNearest
  rw [hzero, zero_mul, ← valueAt_zero] at hnearest
  rw [hnearest.unique (isNearest_valueAt (Nat.zero_le _)), valueAt_zero]

/-- Products have the order of the numbers that are multiplied. -/
theorem IsProduct.toRat_le (h : x.IsProduct n product) (h' : y.IsProduct n other)
    (hle : x.toRat ≤ y.toRat) : product.toRat ≤ other.toRat := by
  have hx := valueAt_nonneg product.magnitude
  have hy := valueAt_nonneg other.magnitude
  have hxvalue := valueAt_nonneg x.magnitude
  have hyvalue := valueAt_nonneg y.magnitude
  unfold toRat at *
  rw [h.negative, h'.negative]
  cases hxneg : x.negative <;> cases hyneg : y.negative <;>
    simp only [hxneg, hyneg, Bool.false_eq_true, if_false, if_true] at hle ⊢
  · exact h.valueAt_le h' hle
  · -- Only zeros of both signs are ordered so.
    rw [h.valueAt_eq_zero (by linarith), h'.valueAt_eq_zero (by linarith), neg_zero]
  · linarith
  · exact neg_le_neg (h'.valueAt_le h (neg_le_neg_iff.mp hle))

end Binary64

namespace Duration

variable {negative : Bool} {num den n : Nat}

/-- An integer, or the end of the range of nanoseconds that is nearest to it. -/
def clamp (n : ℤ) : ℤ := max least (min greatest n)

/-- An integer is a possible number of nanoseconds. -/
def InRange (n : ℤ) : Prop := least ≤ n ∧ n ≤ greatest

theorem clamp_mono : Monotone clamp := fun _ _ h => max_le_max le_rfl (min_le_min le_rfl h)

theorem clamp_of_inRange {n : ℤ} (h : InRange n) : clamp n = n := by
  rw [clamp, min_eq_right h.2, max_eq_right h.1]

/-! ## The test of the range -/

/-- The absolute value of the end of the range on one side of zero. -/
def limit (negative : Bool) : Nat := if negative then least.natAbs else greatest.natAbs

/-- The two ends are one nanosecond apart in their absolute values. -/
theorem limit_bounds (negative : Bool) : 2 ^ 63 - 1 ≤ limit negative ∧ limit negative ≤ 2 ^ 63 := by
  cases negative <;> decide

theorem inRange_of_le_limit (h : n ≤ limit negative) : InRange (signedInt negative n) := by
  unfold limit at h
  unfold InRange signedInt
  unfold least greatest at *
  cases negative <;> simp only [Bool.false_eq_true, if_false, if_true] at * <;> omega

theorem clamp_of_limit_le (h : limit negative ≤ n) : clamp (signedInt negative n) =
    (if negative then Int64.minValue else Int64.maxValue).toInt := by
  unfold limit at h
  unfold clamp signedInt
  cases negative
  · change greatest.natAbs ≤ n at h
    change max least (min greatest n) = 2 ^ 63 - 1
    unfold least greatest at *
    omega
  · change least.natAbs ≤ n at h
    change max least (min greatest (-n)) = -2 ^ 63
    unfold least greatest at *
    omega

/-- What the test in the extended format says about a quotient. -/
theorem atLeast_nearest_cases (hn : n ≤ 2 ^ 63) (num : Nat) (hden : 0 < den) :
    ((Dyadic.nearest extendedPrecision extendedLeastExponent num den).atLeast n = true ∧
        (n : ℚ) - 1 / 4 ≤ num / den) ∨
      ((Dyadic.nearest extendedPrecision extendedLeastExponent num den).atLeast n = false ∧
        (num : ℚ) / den < n) := by
  cases htest : (Dyadic.nearest extendedPrecision extendedLeastExponent num den).atLeast n with
  | true =>
    refine .inl ⟨rfl, ?_⟩
    by_contra hlt
    have hlt := lt_of_not_ge hlt
    have hbound : (n : ℚ) ≤ 2 ^ 63 := by exact_mod_cast hn
    have hsmall : (num : ℚ) / den < 2 ^ (63 : ℤ) := by
      have hpow : (2 : ℚ) ^ (63 : ℤ) = 2 ^ 63 := by norm_num
      rw [hpow]
      linarith
    have hmoved := @Dyadic.toRat_nearest_le num den extendedPrecision extendedLeastExponent 63 hden
      (by decide) hsmall
    have hquarter : (2 : ℚ) ^ ((63 : ℤ) - extendedPrecision) / 2 = 1 / 4 := by
      norm_num [extendedPrecision]
    rw [Dyadic.atLeast_iff] at htest
    linarith
  | false =>
    refine .inr ⟨rfl, ?_⟩
    by_contra hge
    have hle : (n : ℚ) ≤
        (Dyadic.nearest extendedPrecision extendedLeastExponent num den).toRat :=
      Dyadic.le_toRat_nearest (by decide) (by decide) hden hn (le_of_not_gt hge)
    exact absurd ((Dyadic.atLeast_iff _ _).mpr hle) (Bool.eq_false_iff.mp htest)

/-- The test finds the end of the range, or the quotient is below it. -/
theorem bound?_cases (negative : Bool) (num : Nat) (hden : 0 < den) :
    (bound? negative num den = some (if negative then .minValue else .maxValue) ∧
        (limit negative : ℚ) - 1 / 4 ≤ num / den) ∨
      (bound? negative num den = none ∧ (num : ℚ) / den < limit negative) := by
  have hbound : bound? negative num den = if
      (Dyadic.nearest extendedPrecision extendedLeastExponent num den).atLeast (limit negative)
      then some (if negative then .minValue else .maxValue) else none := by
    cases negative <;> rfl
  rw [hbound]
  rcases atLeast_nearest_cases (limit_bounds negative).2 num hden with ⟨htest, h⟩ | ⟨htest, h⟩
  · exact .inl ⟨if_pos htest, h⟩
  · exact .inr ⟨if_neg (Bool.eq_false_iff.mp htest), h⟩

/-- The test and a conversion saturate together if the conversion is exact inside the range and what
it converts to is on the same side of the end as the quotient that is tested. -/
theorem getD_bound? {word : Int64} (hden : 0 < den)
    (hover : (limit negative : ℚ) - 1 / 4 ≤ num / den → limit negative ≤ n)
    (hunder : (num : ℚ) / den < limit negative → n ≤ limit negative)
    (hword : InRange (signedInt negative n) → word.toInt = signedInt negative n) :
    ((bound? negative num den).getD word).toInt = clamp (signedInt negative n) ∧
      (bound? negative num den = none → InRange (signedInt negative n)) := by
  rcases bound?_cases negative num hden with ⟨hbound, hquotient⟩ | ⟨hbound, hquotient⟩
  · rw [hbound, clamp_of_limit_le (hover hquotient)]
    exact ⟨rfl, fun h => by cases h⟩
  · have hrange := @inRange_of_le_limit negative n (hunder hquotient)
    rw [hbound, clamp_of_inRange hrange]
    exact ⟨hword hrange, fun _ => hrange⟩

/-! ## Whole counts -/

/-- Inside the range no operation of the conversion overflows. -/
theorem toInt_convert (unit : TimeUnit) (count : Int64)
    (h : InRange ((count.toInt * unit.picoseconds).tdiv 1000)) :
    (convert unit count).toInt = (count.toInt * unit.picoseconds).tdiv 1000 := by
  unfold InRange least greatest at h
  have hmul {factor : Nat} (hfactor : factor < 2 ^ 63)
      (hunit : convert unit count = count * .ofNat factor)
      (hlength : unit.picoseconds = factor * 1000) :
      (convert unit count).toInt = (count.toInt * unit.picoseconds).tdiv 1000 := by
    have hexact : (count.toInt * unit.picoseconds).tdiv 1000 = count.toInt * factor := by
      rw [hlength, Nat.cast_mul, ← mul_assoc]
      exact Int.mul_tdiv_cancel _ (by decide)
    rw [hexact] at h ⊢
    rw [hunit, Int64.toInt_mul, Int64.toInt_ofNat_of_lt hfactor]
    exact Int.bmod_eq_of_le (by omega) (by omega)
  cases unit with
  | picosecond =>
    rw [TimeUnit.picoseconds, Nat.cast_one, mul_one]
    exact Int64.toInt_div_of_ne_right count 1000 (by decide)
  | _ => exact hmul (by decide) rfl rfl

theorem toInt_eq_signedInt (count : Int64) :
    count.toInt = signedInt (count < 0) count.toInt.natAbs := by
  unfold signedInt
  by_cases h : count < 0
  · have hneg : count.toInt < 0 := Int64.lt_iff_toInt_lt.mp h
    rw [if_pos (decide_eq_true h)]
    omega
  · have hpos : 0 ≤ count.toInt := Int64.le_iff_toInt_le.mp (Int64.not_lt.mp h)
    rw [if_neg (by rwa [decide_eq_true_eq])]
    omega

/-- The quotient toward zero by its sign and its absolute value. -/
theorem tdiv_count (unit : TimeUnit) (count : Int64) :
    (count.toInt * unit.picoseconds).tdiv 1000 =
      signedInt (count < 0) (count.toInt.natAbs * unit.picoseconds / 1000) := by
  have hcount := toInt_eq_signedInt count
  generalize count.toInt.natAbs = magnitude at *
  rw [hcount]
  cases decide (count < 0) with
  | false =>
    change ((magnitude : ℤ) * unit.picoseconds).tdiv (1000 : Nat) = _
    rw [← Nat.cast_mul]
    rfl
  | true =>
    change (-(magnitude : ℤ) * unit.picoseconds).tdiv (1000 : Nat) = _
    rw [Int.neg_mul, Int.neg_tdiv, ← Nat.cast_mul]
    rfl

theorem towardZero_count (unit : TimeUnit) (count : Int64) :
    towardZero (count.toInt * unit.nanoseconds) =
      signedInt (count < 0) (count.toInt.natAbs * unit.picoseconds / 1000) := by
  have hexact : (count.toInt * unit.nanoseconds : ℚ) = if decide (count < 0)
      then -((count.toInt.natAbs * unit.picoseconds : Nat) / (1000 : Nat) : ℚ)
      else (count.toInt.natAbs * unit.picoseconds : Nat) / (1000 : Nat) := by
    have hcount := toInt_eq_signedInt count
    generalize count.toInt.natAbs = magnitude at *
    rw [hcount, TimeUnit.nanoseconds]
    cases decide (count < 0) <;> simp [signedInt] <;> ring
  rw [hexact, towardZero_of_nonneg _ (by positivity), Nat.floor_div_eq_div]

/-- A count whose product is not below the end has no fraction of a nanosecond. -/
theorem limit_le_count (unit : TimeUnit) (count : Int64)
    (h : (limit negative : ℚ) - 1 / 4 ≤
      (count.toInt.natAbs * unit.picoseconds : Nat) / (1000 : Nat)) :
    limit negative ≤ count.toInt.natAbs * unit.picoseconds / 1000 := by
  have hlow := (limit_bounds negative).1
  have hcount : count.toInt.natAbs ≤ 2 ^ 63 := by
    have := count.le_toInt
    have := count.toInt_lt
    omega
  have hquotient : 4000 * limit negative ≤ 4 * (count.toInt.natAbs * unit.picoseconds) + 1000 := by
    rw [le_div_iff₀ (by norm_num)] at h
    have : (4000 * limit negative : ℚ) ≤
        4 * (count.toInt.natAbs * unit.picoseconds : Nat) + 1000 := by
      norm_num at h ⊢
      linarith
    exact_mod_cast this
  cases unit <;> simp only [TimeUnit.picoseconds] at * <;> omega

/-- Whole counts saturate, and no conversion of one overflows. -/
theorem ofCount_saturates (unit : TimeUnit) (count : Int64) :
    (ofCount unit count).nanoseconds.toInt = clamp (towardZero (count.toInt * unit.nanoseconds)) ∧
      (bound? (count < 0) (count.toInt.natAbs * unit.picoseconds) 1000 = none →
        InRange (towardZero (count.toInt * unit.nanoseconds))) := by
  rw [towardZero_count]
  refine getD_bound? (by decide) (limit_le_count unit count) (fun h => ?_) fun h => ?_
  · rw [div_lt_iff₀ (by norm_num)] at h
    have h : count.toInt.natAbs * unit.picoseconds < limit (count < 0) * 1000 := by
      exact_mod_cast h
    exact (Nat.div_lt_of_lt_mul (by rwa [Nat.mul_comm 1000])).le
  · rw [← tdiv_count] at h ⊢
    exact toInt_convert unit count h

/-! ## Counts of seconds -/

theorem cast_nanosecondsPerSecond : (nanosecondsPerSecond : ℚ) = 10 ^ 9 := by
  norm_num [nanosecondsPerSecond]

/-- No product of a binary number with a billion is just below the upper end. -/
theorem mul_billion_lt {p : Nat} (h : Binary64.valueAt p * nanosecondsPerSecond < 2 ^ 63 - 1) :
    Binary64.valueAt p * nanosecondsPerSecond < 2 ^ 63 - 512 := by
  rw [cast_nanosecondsPerSecond] at h ⊢
  by_contra hge
  have hge := le_of_not_gt hge
  obtain ⟨run, place, rfl, hrun, hplace⟩ := Binary64.exists_place p
  -- Such numbers of seconds are between two powers of two, which fixes their exponent.
  have hexponent : (run : ℤ) + Binary64.leastExponent = -19 := by
    refine Binary64.run_eq_of_bounds hrun hplace (by decide) ?_ ?_
    · norm_num
      linarith
    · norm_num
      linarith
  rw [Binary64.valueAt_place hrun hplace.le, hexponent] at h hge
  have hunit : (2 : ℚ) ^ (-19 : ℤ) = 1 / 2 ^ 19 := by norm_num
  rw [hunit] at h hge
  have hlow : 2 ^ 63 * 2 ^ 19 ≤ place * 10 ^ 9 + 512 * 2 ^ 19 := by
    have : (2 ^ 63 * 2 ^ 19 : ℚ) ≤ place * 10 ^ 9 + 512 * 2 ^ 19 := by linarith
    exact_mod_cast this
  have hhigh : place * 10 ^ 9 + 2 ^ 19 < 2 ^ 63 * 2 ^ 19 := by
    have : (place * 10 ^ 9 + 2 ^ 19 : ℚ) < 2 ^ 63 * 2 ^ 19 := by linarith
    exact_mod_cast this
  -- Between the two bounds there is no multiple of a billion.
  omega

/-- The pattern of the first number behind the range. -/
def endPattern : Nat := 1086 * Binary64.fractions

theorem valueAt_endPattern : Binary64.valueAt endPattern = 2 ^ 63 ∧
    Binary64.valueAt (endPattern - 1) = 2 ^ 63 - 1024 := by
  constructor
  · have hplace : endPattern = 1085 * Binary64.fractions + Binary64.fractions := by decide
    rw [hplace, Binary64.valueAt_place (.inr le_rfl) (by decide)]
    norm_num [Binary64.fractions, Binary64.leastExponent]
  · have hplace : endPattern - 1 =
        1084 * Binary64.fractions + (2 * Binary64.fractions - 1) := by decide
    rw [hplace, Binary64.valueAt_place (.inr (by decide)) (by decide)]
    norm_num [Binary64.fractions, Binary64.leastExponent]

variable {r : ℚ} {m : Nat}

open Binary64 (IsNearest valueAt)

/-- A number that is near the end of the range is rounded up to the end or further. -/
theorem le_valueAt_of_near (h : IsNearest r m) (hr : 2 ^ 63 - 2 ≤ r) : 2 ^ 63 ≤ valueAt m := by
  have hnear : IsNearest (2 ^ 63 - 2) endPattern := by
    refine Binary64.isNearest_of_relative (by decide) ?_
    rw [valueAt_endPattern.1]
    norm_num
  rw [← valueAt_endPattern.1]
  exact Binary64.strictMono_valueAt.monotone (hnear.mono h hr)

theorem valueAt_le_of_le (h : IsNearest r m) (hr : r ≤ 2 ^ 63) : valueAt m ≤ 2 ^ 63 := by
  have hexact := @Binary64.isNearest_valueAt endPattern (by decide)
  rw [valueAt_endPattern.1] at hexact
  rw [← valueAt_endPattern.1]
  exact Binary64.strictMono_valueAt.monotone (h.mono hexact hr)

/-- A number that is not near the end of the range is not rounded to the end. -/
theorem valueAt_lt_of_far (h : IsNearest r m) (hr : r < 2 ^ 63 - 512) : valueAt m < 2 ^ 63 := by
  by_contra hge
  have hge := le_of_not_gt hge
  have hlt : valueAt (endPattern - 1) < valueAt m := by
    rw [valueAt_endPattern.2]
    linarith
  have hmiddle := Binary64.add_le_of_near hlt (h.near _ (by decide))
  rw [valueAt_endPattern.2] at hmiddle
  linarith

/-- A number of seconds as the quotient that is tested and rounded. -/
theorem seconds_quotient (x : Binary64) :
    ((x.toDyadic.num * nanosecondsPerSecond : Nat) : ℚ) / x.toDyadic.den =
      valueAt x.magnitude * nanosecondsPerSecond := by
  rw [← Binary64.toRat_toDyadic, Dyadic.toRat_eq_div, Nat.cast_mul]
  ring

/-- The product that is kept inside the range. -/
def secondsProduct (x : Binary64) : Binary64 :=
  .ofRatio x.negative (x.toDyadic.num * nanosecondsPerSecond) x.toDyadic.den

theorem isProduct_secondsProduct (x : Binary64) :
    x.IsProduct nanosecondsPerSecond (secondsProduct x) := by
  refine ⟨Binary64.negative_ofRatio .., ?_⟩
  rw [secondsProduct, Binary64.magnitude_ofRatio, ← seconds_quotient]
  exact Binary64.isNearest_nearestMagnitude _ x.toDyadic.den_pos

/-- Inside the range a number is rounded toward zero. -/
theorem toInt_truncate {x : Binary64} (h : InRange (signedInt x.negative ⌊valueAt x.magnitude⌋₊)) :
    (truncate x).toInt = signedInt x.negative ⌊valueAt x.magnitude⌋₊ := by
  have hfloor : (if x.negative then -x.toDyadic.floor else x.toDyadic.floor : ℤ) =
      signedInt x.negative ⌊valueAt x.magnitude⌋₊ := by
    rw [Dyadic.floor_eq, Binary64.toRat_toDyadic]
    rfl
  rw [truncate, hfloor]
  exact (congrArg Int64.toInt (if_pos h)).trans
    (Int64.toInt_ofInt_of_le h.1 (Int.lt_add_one_of_le h.2))

/-- Whatever stands for a number of seconds is tested, also if it is infinite. -/
theorem nanoseconds_ofSeconds {x : Binary64} (h : x.isNaN = false) :
    (ofSeconds x).nanoseconds =
      (bound? x.negative (x.toDyadic.num * nanosecondsPerSecond) x.toDyadic.den).getD
        (truncate (secondsProduct x)) := by
  cases hinfinite : x.isInfinite with
  | false => simp only [ofSeconds, h, hinfinite, Bool.false_eq_true, if_false, secondsProduct]
  | true =>
    have hends : (ofSeconds x).nanoseconds = if x.negative then .minValue else .maxValue := by
      simp only [ofSeconds, h, hinfinite, Bool.false_eq_true, if_false, if_true]
    rcases bound?_cases x.negative (x.toDyadic.num * nanosecondsPerSecond) x.toDyadic.den_pos with
      ⟨hbound, _⟩ | ⟨_, hsmall⟩
    · rw [hbound, hends, Option.getD_some]
    · -- The number that stands for infinity is behind the range.
      rw [seconds_quotient, eq_of_beq hinfinite, cast_nanosecondsPerSecond] at hsmall
      have hlarge : (2 : ℚ) ^ 63 ≤ valueAt Binary64.infinity := by
        rw [← valueAt_endPattern.1]
        exact Binary64.strictMono_valueAt.monotone (by decide)
      have hlimit : (limit x.negative : ℚ) ≤ 2 ^ 63 := by
        exact_mod_cast (limit_bounds x.negative).2
      linarith

/-- Counts of seconds saturate, and no conversion of one overflows. -/
theorem ofSeconds_saturates {x : Binary64} (h : x.isNaN = false) :
    (ofSeconds x).nanoseconds.toInt = clamp (towardZero (secondsProduct x).toRat) ∧
      (bound? x.negative (x.toDyadic.num * nanosecondsPerSecond) x.toDyadic.den = none →
        InRange (towardZero (secondsProduct x).toRat)) := by
  obtain ⟨hsign, hnearest⟩ := isProduct_secondsProduct x
  have htrunc := towardZero_of_nonneg x.negative
    (Binary64.valueAt_nonneg (secondsProduct x).magnitude)
  rw [nanoseconds_ofSeconds h, Binary64.toRat, hsign, htrunc]
  refine getD_bound? x.toDyadic.den_pos (fun hover => ?_) (fun hunder => ?_) fun hrange => ?_
  · rw [seconds_quotient] at hover
    obtain ⟨hlow, hhigh⟩ := limit_bounds x.negative
    have hlowq : (2 : ℚ) ^ 63 ≤ limit x.negative + 1 := by
      exact_mod_cast Nat.sub_le_iff_le_add.mp hlow
    have hhighq : (limit x.negative : ℚ) ≤ 2 ^ 63 := by exact_mod_cast hhigh
    exact Nat.le_floor (hhighq.trans (le_valueAt_of_near hnearest (by linarith)))
  · rw [seconds_quotient] at hunder
    cases hnegative : x.negative with
    | false =>
      have hlimit : (limit false : ℚ) = 2 ^ 63 - 1 := by norm_num [limit, greatest]
      rw [hnegative, hlimit] at hunder
      -- The product is not rounded up to the end because it is not just below it.
      have hlt := valueAt_lt_of_far hnearest (mul_billion_lt hunder)
      have hfloor : ⌊valueAt (secondsProduct x).magnitude⌋₊ < 2 ^ 63 :=
        (Nat.floor_lt (Binary64.valueAt_nonneg _)).mpr (by exact_mod_cast hlt)
      exact Nat.le_of_lt_succ hfloor
    | true =>
      have hlimit : (limit true : ℚ) = 2 ^ 63 := by norm_num [limit, least]
      rw [hnegative, hlimit] at hunder
      refine Nat.floor_le_of_le ?_
      rw [hlimit]
      exact valueAt_le_of_le hnearest hunder.le
  · rw [← hsign] at hrange ⊢
    exact toInt_truncate hrange

/-! ## All counts -/

/-- Whole counts of every unit and numbers of seconds become the number of nanoseconds toward zero,
or the end of the range that is nearest to it. For numbers of seconds this is the number of the
rounded product, and what is not a number becomes zero. A count that the test lets through has a
conversion that fits. Durations have the order of the counts. -/
theorem conversions_saturate :
    (∀ unit count,
      (ofCount unit count).nanoseconds.toInt =
          clamp (towardZero (count.toInt * unit.nanoseconds)) ∧
        (bound? (count < 0) (count.toInt.natAbs * unit.picoseconds) 1000 = none →
          InRange (towardZero (count.toInt * unit.nanoseconds)))) ∧
    (∀ unit a b, a ≤ b → (ofCount unit a).nanoseconds ≤ (ofCount unit b).nanoseconds) ∧
    (∀ x : Binary64, x.isNaN = true → ofSeconds x = ⟨0⟩) ∧
    (∀ x : Binary64, x.isNaN = false → ∃ product, x.IsProduct nanosecondsPerSecond product ∧
      (ofSeconds x).nanoseconds.toInt = clamp (towardZero product.toRat) ∧
        (bound? x.negative (x.toDyadic.num * nanosecondsPerSecond) x.toDyadic.den = none →
          InRange (towardZero product.toRat))) ∧
    (∀ x y : Binary64, x.isNaN = false → y.isNaN = false → x.toRat ≤ y.toRat →
      (ofSeconds x).nanoseconds ≤ (ofSeconds y).nanoseconds) := by
  refine ⟨ofCount_saturates, fun unit a b h => ?_, fun x h => if_pos h, fun x h => ?_,
    fun x y hx hy h => ?_⟩
  · have hlength : (0 : ℚ) ≤ unit.nanoseconds := by
      unfold TimeUnit.nanoseconds
      positivity
    have hcounts : (a.toInt : ℚ) ≤ b.toInt := by exact_mod_cast Int64.le_iff_toInt_le.mp h
    rw [Int64.le_iff_toInt_le, (ofCount_saturates unit a).1, (ofCount_saturates unit b).1]
    exact clamp_mono (towardZero_mono (mul_le_mul_of_nonneg_right hcounts hlength))
  · exact ⟨secondsProduct x, isProduct_secondsProduct x, ofSeconds_saturates h⟩
  · rw [Int64.le_iff_toInt_le, (ofSeconds_saturates hx).1, (ofSeconds_saturates hy).1]
    exact clamp_mono (towardZero_mono
      ((isProduct_secondsProduct x).toRat_le (isProduct_secondsProduct y) h))

/-- The last number of seconds that the test lets through, and the next one. -/
theorem conversions_saturate_last_seconds :
    (ofSeconds ⟨0x42012E0BE826D694⟩).nanoseconds = 9223372036854774784 ∧
      (ofSeconds ⟨0x42012E0BE826D695⟩).nanoseconds = .maxValue ∧
      (ofSeconds ⟨0x42012E0BE826D694⟩).nanoseconds ≤
        (ofSeconds ⟨0x42012E0BE826D695⟩).nanoseconds ∧
      (∃ product, Binary64.IsProduct ⟨0x42012E0BE826D694⟩ nanosecondsPerSecond product ∧
        InRange (towardZero product.toRat)) ∧
      ofSeconds ⟨0x7FF8000000000000⟩ = ⟨0⟩ ∧
      InRange (towardZero ((2562047 : Int64).toInt * TimeUnit.hour.nanoseconds)) ∧
      (ofCount .hour 2562047).nanoseconds ≤ (ofCount .hour 2562048).nanoseconds := by
  obtain ⟨hcounts, hordered, hnone, hproduct, hseconds⟩ := conversions_saturate
  have hlast : Binary64.toRat ⟨0x42012E0BE826D694⟩ ≤ Binary64.toRat ⟨0x42012E0BE826D695⟩ :=
    Binary64.strictMono_valueAt.monotone (by decide)
  obtain ⟨product, hrounded, _, hrange⟩ := hproduct ⟨0x42012E0BE826D694⟩ (by decide)
  exact ⟨by decide +kernel, by decide +kernel, hseconds _ _ (by decide) (by decide) hlast,
    ⟨product, hrounded, hrange (by decide +kernel)⟩, hnone _ (by decide),
    (hcounts .hour 2562047).2 (by decide +kernel), hordered .hour _ _ (by decide)⟩

end Duration

end LeveledLog
