import LeveledLog.Proofs.Decimal.Figures
import LeveledLog.Proofs.Rendering.Padding

/-!
# Figures of real numbers

Without a precision a finite number is written in general notation with few figures. The search
for them tries the nearest numeral of each length only, so a numeral with fewer figures can still
read back, but only above the beginning of a run of equal gaps, where the numbers that are rounded
to a pattern reach further up than down.
-/

namespace LeveledLog

open Numeral
open Radix (Denotes)

/-- What denotes a number in base ten is a decimal numeral for it. -/
theorem Radix.Denotes.exists_numeral {upper : Bool} {s : Bytes} {r : ℚ}
    (h : Denotes .decimal upper s r) :
    ∃ n : DecimalNumeral, n.text = s ∧ n.IsFormed ∧ n.toRat = r := by
  cases h with
  | @digits p tail power alternate hwhole hdigits hpower =>
    have hdecimal : ∀ b ∈ p.whole ++ p.fraction, Numeral.isDigit b = true := by
      simpa only [isDigit_decimal] using hdigits
    have htext := DecimalNumeral.text_ofPositional alternate p
    have hformed := DecimalNumeral.isFormed_ofPositional alternate p hwhole hdecimal
    have hbase : (decimal.base : ℚ) = 10 := rfl
    rw [valueOf_decimal upper hdecimal, hbase]
    cases hpower with
    | one =>
      refine ⟨.ofPositional alternate p, by rw [htext, List.append_nil], hformed, ?_⟩
      rw [DecimalNumeral.toRat_ofPositional, mul_one]
      rfl
    | @scaled mark exponent hmark =>
      refine ⟨{ DecimalNumeral.ofPositional alternate p with
        exponent := some (.ofInt mark exponent) }, ?_, ⟨hwhole, hformed.2.1, ?_⟩, ?_⟩
      · rw [DecimalNumeral.text, DecimalNumeral.ofPositional, Option.elim_none,
          List.append_nil] at htext
        rw [← htext, ← ExponentPart.text_ofInt]
        rfl
      · intro e he
        obtain rfl := Option.some.inj he
        refine ExponentPart.isFormed_ofInt exponent ?_
        revert hmark
        cases upper <;> rintro ⟨⟩ <;> rfl
      · have hdigits := DecimalNumeral.digits_ofPositional alternate p
        have hfraction := DecimalNumeral.getD_fraction_ofPositional alternate p
        have hpower := ExponentPart.power_ofInt mark exponent
        unfold DecimalNumeral.toRat DecimalNumeral.digits at *
        dsimp only at *
        rw [hdigits, hfraction, Option.elim_some, hpower, zpow_sub₀ (by norm_num), zpow_natCast]
        have hten : decimal.exponentBase = 10 := rfl
        rw [hten]
        ring

namespace Rendering

open Binary64 (IsNearest valueAt infinity)

variable {spec : Spec} {x : Binary64}

/-- A finite number other than zero under a verb for its default text, without a precision, is
written as a numeral that is rounded to it. Blanks apart, only a sign stands in front of it, a
minus exactly if the sign bit is set. A numeral with fewer figures that is rounded to the number,
too, is greater than it, and the number is the first of a run of equal gaps that is not the
lowest. -/
theorem default_real_has_few_figures (hx : x.magnitude < infinity) (hne : x.magnitude ≠ 0)
    (hverb : spec.verb ∈ [.general, .generalUpper, .default, .text])
    (hprecision : spec.precision = none) :
    ∃ (text sign : Bytes) (shown : DecimalNumeral),
      value spec (.float x) = .ok text ∧ Radix.withoutBlanks text = sign ++ shown.text ∧
      sign ∈ [[], utf8 "-", utf8 "+"] ∧ (sign = utf8 "-" ↔ x.negative = true) ∧
      shown.IsFormed ∧ IsNearest shown.toRat x.magnitude ∧
      ∀ n : DecimalNumeral, n.IsFormed → n.figures < shown.figures →
        IsNearest n.toRat x.magnitude →
        x.fractionField = 0 ∧ 2 ≤ x.exponentField ∧ valueAt x.magnitude < n.toRat := by
  obtain ⟨_, hreads, _⟩ := Binary64.shortestPlaces_spec hx
  obtain ⟨hform, haccepts, htext⟩ : spec.verb.form .float = .real .decimal ∧
      spec.verb.accepts .float = true ∧ realText spec x = generalText spec x := by
    simp only [List.mem_cons, List.not_mem_nil, or_false] at hverb
    unfold realText
    rcases hverb with hverb | hverb | hverb | hverb <;> rw [hverb] <;> exact ⟨rfl, rfl, rfl⟩
  obtain ⟨y, hy, hargument⟩ := ofArgument_real (a := .float x) haccepts hform
  obtain rfl : x = y := Option.some.inj hy
  have hdenotes := denotes_generalText_of_none hx hprecision
  obtain ⟨count, hfit, _⟩ := withoutBlanks_fit spec (ofArgument spec (.float x))
  have hlead : (ofArgument spec (.float x)).lead = spec.sign x.negative := by
    rw [hargument, real_of_finite spec hx]
  have hrest : (ofArgument spec (.float x)).rest = generalText spec x := by
    rw [hargument, real_of_finite spec hx, htext]
  rw [hlead, hrest, Radix.withoutBlanks_of_visible hdenotes.visible] at hfit
  obtain ⟨shown, hshown, hformed, hnumber⟩ := (hdenotes.zeros_append count).exists_numeral
  rw [← hshown] at hfit
  refine ⟨_, _, shown, value_eq_fit haccepts spec.zero spec.width, hfit, ?_,
    withoutBlanks_sign_eq_minus_iff spec x.negative, hformed, ?_, ?_⟩
  · simpa using withoutBlanks_sign_cases spec x.negative
  · rwa [hnumber]
  · intro n hn hfew hnearest
    refine Binary64.of_figures_le_shortestPlaces hx hne hn ?_ hnearest
    obtain ⟨hlength, hdigits⟩ := x.toDyadic.toDecimal.scientific_digits x.shortestPlaces
    have hfigures := hformed.figures_le_scientific hdigits hnumber
    omega

/-- No numeral with fewer figures reads back as the sum of a tenth and two tenths. -/
theorem default_real_has_few_figures_sum :
    ∃ (text sign : Bytes) (shown : DecimalNumeral),
      value { verb := .default } (.float ⟨0x3FD3333333333334⟩) = .ok text ∧
      Radix.withoutBlanks text = sign ++ shown.text ∧
      ∀ n : DecimalNumeral, n.IsFormed → n.figures < shown.figures →
        ¬ IsNearest n.toRat (⟨0x3FD3333333333334⟩ : Binary64).magnitude := by
  have hfinite : (⟨0x3FD3333333333334⟩ : Binary64).magnitude < infinity := by decide
  have hne : (⟨0x3FD3333333333334⟩ : Binary64).magnitude ≠ 0 := by decide
  have hfraction : (⟨0x3FD3333333333334⟩ : Binary64).fractionField ≠ 0 := by decide
  obtain ⟨text, sign, shown, hvalue, htext, _, _, _, _, hfewer⟩ :=
    @default_real_has_few_figures { verb := .default } _ hfinite hne (by decide) rfl
  exact ⟨text, sign, shown, hvalue, htext,
    fun n hn hfew hnearest => hfraction (hfewer n hn hfew hnearest).1⟩

/-- The power of two with the exponent `-44` is written with seventeen figures, but a numeral with
sixteen is rounded to it, too. -/
theorem default_real_with_spare_figure :
    ∃ shown fewer : DecimalNumeral,
      value { verb := .general } (.float ⟨0x3D30000000000000⟩) = .ok shown.text ∧
      shown.IsFormed ∧ fewer.IsFormed ∧ fewer.figures < shown.figures ∧
      IsNearest fewer.toRat (⟨0x3D30000000000000⟩ : Binary64).magnitude := by
  have hpower : (ExponentPart.ofInt 'e'.toUInt8 (-14)).IsFormed := ExponentPart.isFormed_ofInt _ rfl
  refine ⟨⟨utf8 "5", some (utf8 "6843418860808015"), some (.ofInt 'e'.toUInt8 (-14))⟩,
    ⟨utf8 "5", some (utf8 "684341886080802"), some (.ofInt 'e'.toUInt8 (-14))⟩, ?_, ?_, ?_, ?_, ?_⟩
  · decide +kernel
  · refine ⟨by decide, List.all_eq_true.mp (by decide), ?_⟩
    rintro e ⟨⟩
    exact hpower
  · refine ⟨by decide, List.all_eq_true.mp (by decide), ?_⟩
    rintro e ⟨⟩
    exact hpower
  · decide
  · have hnearest := Binary64.isNearest_nearestMagnitude 5684341886080802
      (by decide : 0 < 10 ^ 29)
    have hpattern : Binary64.nearestMagnitude 5684341886080802 (10 ^ 29) =
        (⟨0x3D30000000000000⟩ : Binary64).magnitude := by decide +kernel
    have hvalue : Numeral.value (utf8 "5" ++ utf8 "684341886080802") = 5684341886080802 := by decide
    have hlength : (utf8 "684341886080802").length = 15 := by decide
    have hnumber : (⟨utf8 "5", some (utf8 "684341886080802"), some (.ofInt 'e'.toUInt8 (-14))⟩ :
        DecimalNumeral).toRat = ((5684341886080802 : Nat) : ℚ) / (10 ^ 29 : Nat) := by
      rw [DecimalNumeral.toRat, DecimalNumeral.digits, Option.getD_some, Option.elim_some,
        ExponentPart.power_ofInt, hlength, hvalue]
      norm_num
    rwa [hnumber, ← hpattern]

end Rendering

end LeveledLog
