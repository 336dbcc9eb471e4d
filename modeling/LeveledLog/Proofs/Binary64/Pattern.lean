import LeveledLog.Binary64
import Mathlib

/-!
# Patterns and their numbers

The pattern of a number without its sign is a natural number, and the numbers grow with their
patterns: in runs of equal gaps, each run with gaps twice those of the run before it. Rounding
a number means to take the pattern with the nearest number, and of two equally near ones the
even pattern. Infinity takes part as the power of two behind the greatest number.
-/

namespace LeveledLog

/-- The number that a significand and an exponent stand for. -/
def Dyadic.toRat (d : Dyadic) : ℚ := d.significand * 2 ^ d.exponent

namespace Binary64

/-- How far the number of a pattern is from that of the next pattern. -/
def gap (p : Nat) : ℚ := 2 ^ (((p / fractions - 1 : Nat) : Int) + leastExponent)

/-- The number of a pattern without sign. Infinity counts as the power of two behind the
greatest number. -/
def valueAt (p : Nat) : ℚ :=
  ((if p / fractions = 0 then p % fractions else fractions + p % fractions : Nat) : ℚ) * gap p

/-- A number is rounded to a pattern: no other pattern is nearer, and an equally near one only
if the pattern is even. -/
structure IsNearest (r : ℚ) (p : Nat) : Prop where
  inRange : p ≤ infinity
  near : ∀ q ≤ infinity, |r - valueAt p| ≤ |r - valueAt q|
  even : ∀ q ≤ infinity, q ≠ p → |r - valueAt p| = |r - valueAt q| → Even p

/-! ## Runs of equal gaps -/

variable {r : ℚ} {p q run place : Nat}

theorem gap_pos (p : Nat) : 0 < gap p := by
  unfold gap
  positivity

/-- Every pattern has a place in a run. Only the places of the first run begin with zero. -/
theorem exists_place (p : Nat) : ∃ run place, p = run * fractions + place ∧
    (run = 0 ∨ fractions ≤ place) ∧ place < 2 * fractions := by
  have hmod := Nat.mod_lt p (show 0 < fractions by decide)
  have hdiv := Nat.div_add_mod' p fractions
  by_cases hzero : p / fractions = 0
  · rw [hzero, Nat.zero_mul, Nat.zero_add] at hdiv
    exact ⟨0, p, by omega, .inl rfl, by omega⟩
  · obtain ⟨run, hrun⟩ := Nat.exists_eq_succ_of_ne_zero hzero
    rw [hrun, Nat.succ_mul] at hdiv
    exact ⟨run, fractions + p % fractions, by omega, .inr (by omega), by omega⟩

theorem gap_place (hrun : run = 0 ∨ fractions ≤ place) (h : place < 2 * fractions) :
    gap (run * fractions + place) = 2 ^ ((run : Int) + leastExponent) := by
  have hdiv : (run * fractions + place) / fractions - 1 = run := by
    unfold fractions at *
    omega
  rw [gap, hdiv]

/-- The numbers of a run are the multiples of its gap, up to the first one of the next run. -/
theorem valueAt_place (hrun : run = 0 ∨ fractions ≤ place) (h : place ≤ 2 * fractions) :
    valueAt (run * fractions + place) = place * 2 ^ ((run : Int) + leastExponent) := by
  rcases Nat.lt_or_eq_of_le h with h | rfl
  · have hsignificand : (if (run * fractions + place) / fractions = 0
        then (run * fractions + place) % fractions
        else fractions + (run * fractions + place) % fractions) = place := by
      unfold fractions at *
      split <;> omega
    rw [valueAt, hsignificand, gap_place hrun h]
  · -- The end of a run is the beginning of the next one, where the gap is twice as wide.
    have hnext : run * fractions + 2 * fractions = (run + 1) * fractions + fractions := by ring
    have hsignificand : (if ((run + 1) * fractions + fractions) / fractions = 0
        then ((run + 1) * fractions + fractions) % fractions
        else fractions + ((run + 1) * fractions + fractions) % fractions) = fractions := by
      unfold fractions
      split <;> omega
    have hdouble : (2 : ℚ) ^ (((run + 1 : Nat) : Int) + leastExponent) =
        2 * 2 ^ ((run : Int) + leastExponent) := by
      rw [← zpow_one_add₀ two_ne_zero]
      congr 1
      push_cast
      ring
    rw [hnext, valueAt, hsignificand, gap_place (.inr le_rfl) (by decide), hdouble]
    push_cast
    ring

theorem valueAt_succ (p : Nat) : valueAt (p + 1) = valueAt p + gap p := by
  obtain ⟨run, place, rfl, hrun, hplace⟩ := exists_place p
  have hnext : run = 0 ∨ fractions ≤ place + 1 := by omega
  rw [Nat.add_assoc, valueAt_place hnext hplace, valueAt_place hrun hplace.le,
    gap_place hrun hplace]
  push_cast
  ring

theorem strictMono_valueAt : StrictMono valueAt := by
  apply strictMono_nat_of_lt_succ
  intro p
  rw [valueAt_succ]
  exact lt_add_of_pos_right _ (gap_pos p)

@[simp] theorem valueAt_zero : valueAt 0 = 0 := by simp [valueAt]

/-- A gap is not small against the number at its upper end. -/
theorem valueAt_succ_le (p : Nat) : valueAt (p + 1) ≤ 2 ^ 53 * gap p := by
  obtain ⟨run, place, rfl, hrun, hplace⟩ := exists_place p
  have hnext : run = 0 ∨ fractions ≤ place + 1 := by omega
  have hbound : ((place + 1 : Nat) : ℚ) ≤ 2 ^ 53 := by
    have : place + 1 ≤ 2 ^ 53 := by
      unfold fractions at hplace
      omega
    exact_mod_cast this
  rw [Nat.add_assoc, valueAt_place hnext hplace, gap_place hrun hplace]
  gcongr

/-- A number between two powers of two next to each other is in the run between them. -/
theorem run_eq_of_bounds {k : Int} (hrun : run = 0 ∨ fractions ≤ place)
    (hplace : place < 2 * fractions) (hk : leastExponent < k)
    (hlow : (2 : ℚ) ^ (52 + k) ≤ valueAt (run * fractions + place))
    (hhigh : valueAt (run * fractions + place) < 2 ^ (52 + (k + 1))) :
    (run : Int) + leastExponent = k := by
  have hfractions : (fractions : ℚ) = 2 ^ (52 : Int) := by norm_num [fractions]
  rw [valueAt_place hrun hplace.le] at hlow hhigh
  apply le_antisymm
  · by_contra hlarge
    have hfirst : (fractions : ℚ) ≤ place := by
      exact_mod_cast hrun.resolve_left (by rintro rfl; omega)
    have hpower : (2 : ℚ) ^ (k + 1) ≤ 2 ^ ((run : Int) + leastExponent) :=
      zpow_le_zpow_right₀ one_le_two (by omega)
    have hproduct : (fractions : ℚ) * 2 ^ (k + 1) ≤ place * 2 ^ ((run : Int) + leastExponent) := by
      gcongr
    rw [hfractions, ← zpow_add₀ two_ne_zero] at hproduct
    exact absurd hhigh (not_lt.mpr hproduct)
  · by_contra hsmall
    have hlast : (place : ℚ) < fractions * 2 := by exact_mod_cast (mul_comm 2 fractions ▸ hplace)
    have hpower : (2 : ℚ) ^ ((run : Int) + leastExponent) ≤ 2 ^ (k - 1) :=
      zpow_le_zpow_right₀ one_le_two (by omega)
    have hunit : (0 : ℚ) < 2 ^ ((run : Int) + leastExponent) := by positivity
    have hproduct : (place : ℚ) * 2 ^ ((run : Int) + leastExponent) < 2 ^ (52 + k) := by
      calc (place : ℚ) * 2 ^ ((run : Int) + leastExponent)
          < fractions * 2 * 2 ^ ((run : Int) + leastExponent) := mul_lt_mul_of_pos_right hlast hunit
        _ ≤ fractions * 2 * 2 ^ (k - 1) := by gcongr
        _ = 2 ^ (52 + k) := by
          rw [hfractions, mul_assoc, ← zpow_one_add₀ two_ne_zero, ← zpow_add₀ two_ne_zero]
          congr 1
          ring
    exact absurd hlow (not_le.mpr hproduct)

/-! ## The nearest pattern -/

/-- A number is rounded to a pattern when it is no further away than half a gap on either side,
and an odd pattern is not taken at half a gap. -/
theorem isNearest_of_half (hp : p ≤ infinity)
    (habove : p < infinity → 2 * (r - valueAt p) ≤ gap p)
    (hbelow : ∀ q, p = q + 1 → 2 * (valueAt p - r) ≤ gap q)
    (hodd : ¬ Even p → (p < infinity → 2 * (r - valueAt p) ≠ gap p) ∧
      ∀ q, p = q + 1 → 2 * (valueAt p - r) ≠ gap q) :
    IsNearest r p := by
  have hfar : ∀ q ≤ infinity, q ≠ p → |r - valueAt p| ≤ |r - valueAt q| ∧
      (|r - valueAt p| = |r - valueAt q| → Even p) := by
    intro q hq hne
    rcases Nat.lt_or_gt_of_ne hne with hlt | hlt
    · obtain ⟨k, rfl⟩ := Nat.exists_eq_add_one_of_ne_zero (Nat.ne_zero_of_lt hlt)
      have hstep := valueAt_succ k
      have hmono := strictMono_valueAt.monotone (Nat.le_of_lt_succ hlt)
      have hhalf := hbelow k rfl
      have hgap := gap_pos k
      have hq_abs : r - valueAt q ≤ |r - valueAt q| := le_abs_self _
      constructor
      · rw [abs_le]
        constructor <;> linarith
      · intro heq
        by_contra hnot
        have hne := (hodd hnot).2 k rfl
        rcases abs_cases (r - valueAt (k + 1)) with ⟨habs, _⟩ | ⟨habs, _⟩
        · rw [habs] at heq
          linarith
        · rw [habs] at heq
          exact hne (by linarith)
    · have hstep := valueAt_succ p
      have hmono := strictMono_valueAt.monotone (Nat.succ_le_of_lt hlt)
      have hhalf := habove (lt_of_lt_of_le hlt hq)
      have hgap := gap_pos p
      have hq_abs : -(r - valueAt q) ≤ |r - valueAt q| := neg_le_abs _
      constructor
      · rw [abs_le]
        constructor <;> linarith
      · intro heq
        by_contra hnot
        have hne := (hodd hnot).1 (lt_of_lt_of_le hlt hq)
        rcases abs_cases (r - valueAt p) with ⟨habs, _⟩ | ⟨habs, _⟩
        · rw [habs] at heq
          exact hne (by linarith)
        · rw [habs] at heq
          linarith
  refine ⟨hp, fun q hq => ?_, fun q hq hne => (hfar q hq hne).2⟩
  by_cases hne : q = p
  · rw [hne]
  · exact (hfar q hq hne).1

/-- There is only one pattern that a number is rounded to. -/
theorem IsNearest.unique (hp : IsNearest r p) (hq : IsNearest r q) : p = q := by
  by_contra hne
  wlog hlt : p < q generalizing p q
  · exact this hq hp (Ne.symm hne) (lt_of_le_of_ne (Nat.le_of_not_lt hlt) (Ne.symm hne))
  have heq := le_antisymm (hp.near q hq.inRange) (hq.near p hp.inRange)
  -- Two even patterns have another one between them, which is nearer than both.
  have hevenp := hp.even q hq.inRange (Ne.symm hne) heq
  have hevenq := hq.even p hp.inRange hne heq.symm
  have hbetween : p + 1 < q := by
    rcases hevenp with ⟨i, rfl⟩
    rcases hevenq with ⟨j, rfl⟩
    omega
  have hlow := strictMono_valueAt (Nat.lt_succ_self p)
  have hhigh := strictMono_valueAt hbetween
  have hnear := hp.near (p + 1) (hbetween.le.trans hq.inRange)
  rcases abs_cases (r - valueAt p) with ⟨h₁, _⟩ | ⟨h₁, _⟩ <;>
    rcases abs_cases (r - valueAt q) with ⟨h₂, _⟩ | ⟨h₂, _⟩ <;>
    rcases abs_cases (r - valueAt (p + 1)) with ⟨h₃, _⟩ | ⟨h₃, _⟩ <;>
    rw [h₁, h₂] at heq <;> rw [h₁, h₃] at hnear <;> linarith

/-- A number that is no further from another one than from one below that is not below their
middle. -/
theorem add_le_of_near {a b : ℚ} (hlt : a < b) (h : |r - b| ≤ |r - a|) :
    a + b ≤ 2 * r := by
  rcases abs_cases (r - a) with ⟨h₁, _⟩ | ⟨h₁, _⟩ <;>
    rcases abs_cases (r - b) with ⟨h₂, _⟩ | ⟨h₂, _⟩ <;> linarith

/-- A number that is no further from another one than from one above that is not above their
middle. -/
private theorem le_add_of_near {a b : ℚ} (hlt : a < b) (h : |r - a| ≤ |r - b|) :
    2 * r ≤ a + b := by
  rcases abs_cases (r - a) with ⟨h₁, _⟩ | ⟨h₁, _⟩ <;>
    rcases abs_cases (r - b) with ⟨h₂, _⟩ | ⟨h₂, _⟩ <;> linarith

/-- A greater number is not rounded to a smaller pattern. -/
theorem IsNearest.mono {s : ℚ} (hp : IsNearest r p) (hq : IsNearest s q) (h : r ≤ s) : p ≤ q := by
  by_contra hlt
  have hvalue : valueAt q < valueAt p := strictMono_valueAt (Nat.lt_of_not_le hlt)
  have hlow := add_le_of_near hvalue (hp.near q hq.inRange)
  have hhigh := le_add_of_near hvalue (hq.near p hp.inRange)
  -- Both numbers are in the middle, and one number is rounded to one pattern.
  obtain rfl : r = s := le_antisymm h (by linarith)
  exact hlt (hp.unique hq).le

/-- The number of a pattern is rounded to that pattern. -/
theorem isNearest_valueAt (hp : p ≤ infinity) : IsNearest (valueAt p) p := by
  have hzero : 2 * (valueAt p - valueAt p) = 0 := by ring
  refine isNearest_of_half hp ?_ ?_ ?_
  · intro _
    rw [hzero]
    exact (gap_pos p).le
  · intro q _
    rw [hzero]
    exact (gap_pos q).le
  · intro _
    rw [hzero]
    exact ⟨fun _ => (gap_pos p).ne, fun q _ => (gap_pos q).ne⟩

/-- A number that differs from that of a pattern by less than one part in `2 ^ 54` is rounded to
the pattern. -/
theorem isNearest_of_relative (hp : p < infinity)
    (h : |r - valueAt p| < valueAt p / 2 ^ 54) : IsNearest r p := by
  obtain ⟨hlow, hhigh⟩ := abs_lt.mp h
  have habove : 2 * (r - valueAt p) < gap p := by
    have hgap := valueAt_succ_le p
    have hstep := valueAt_succ p
    have := gap_pos p
    linarith
  have hbelow (q : Nat) (hq : p = q + 1) : 2 * (valueAt p - r) < gap q := by
    have hgap := valueAt_succ_le q
    rw [← hq] at hgap
    linarith
  refine isNearest_of_half hp.le (fun _ => habove.le) (fun q hq => (hbelow q hq).le) ?_
  intro _
  exact ⟨fun _ => habove.ne, fun q hq => (hbelow q hq).ne⟩

/-- The natural numbers that need no more bits than a significand has are numbers of patterns. -/
theorem exists_valueAt_eq {n : Nat} (h : n < 2 ^ 53) : ∃ p < infinity, valueAt p = n := by
  by_cases hzero : n = 0
  · exact ⟨0, by decide, by rw [hzero, valueAt_zero, Nat.cast_zero]⟩
  · have hlog : n.log2 ≤ 52 := by
      have := (Nat.log2_lt hzero).mpr h
      omega
    -- The significand has its highest bit in the first place.
    have hlow : fractions ≤ n * 2 ^ (52 - n.log2) := by
      calc fractions = 2 ^ n.log2 * 2 ^ (52 - n.log2) := by
            rw [← pow_add, Nat.add_sub_cancel' hlog]
            rfl
        _ ≤ n * 2 ^ (52 - n.log2) := Nat.mul_le_mul_right _ (Nat.log2_self_le hzero)
    have hhigh : n * 2 ^ (52 - n.log2) < 2 * fractions := by
      calc n * 2 ^ (52 - n.log2) < 2 ^ (n.log2 + 1) * 2 ^ (52 - n.log2) :=
            Nat.mul_lt_mul_of_pos_right Nat.lt_log2_self (by positivity)
        _ = 2 * fractions := by
            rw [← pow_add, show n.log2 + 1 + (52 - n.log2) = 53 by omega]
            rfl
    refine ⟨(1022 + n.log2) * fractions + n * 2 ^ (52 - n.log2), ?_, ?_⟩
    · unfold infinity fractions at *
      omega
    · rw [valueAt_place (.inr hlow) hhigh.le]
      have hexponent : (((1022 + n.log2 : Nat) : Int) + leastExponent) =
          -((52 - n.log2 : Nat) : Int) := by
        unfold leastExponent
        omega
      rw [hexponent, zpow_neg, zpow_natCast]
      push_cast
      field_simp

/-- The absolute value of a finite number is the number of its pattern. -/
theorem toRat_toDyadic (x : Binary64) : x.toDyadic.toRat = valueAt x.magnitude := by
  unfold toDyadic exponentField fractionField Dyadic.toRat valueAt gap
  generalize x.magnitude / fractions = field
  by_cases hzero : field = 0
  · rw [if_pos hzero, if_pos hzero, hzero]
    simp
  · have hexponent : (field : Int) - 1 = ((field - 1 : Nat) : Int) := by omega
    rw [if_neg hzero, if_neg hzero, hexponent]

end Binary64

end LeveledLog
