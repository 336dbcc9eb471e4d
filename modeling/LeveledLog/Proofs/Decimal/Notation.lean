import LeveledLog.Proofs.Decimal.Value
import LeveledLog.Shortest

/-!
# Decimal numerals

A decimal numeral has digits before a point, may have a point with digits behind it, and may have
a power of ten behind those. It is a number written with these parts. The texts of fixed and of
scientific notation are such numerals, and of the same numbers.
-/

namespace LeveledLog

open Numeral

/-- The part of a numeral that scales it by a power of ten. -/
structure ExponentPart where
  mark : UInt8
  negative : Bool
  digits : Bytes
  deriving DecidableEq, Repr

/-- A decimal numeral without sign. -/
structure DecimalNumeral where
  whole : Bytes
  /-- What is behind the point, if there is one. -/
  fraction : Option Bytes
  exponent : Option ExponentPart
  deriving DecidableEq, Repr

namespace ExponentPart

/-- The bytes that write the part. -/
def text (e : ExponentPart) : Bytes :=
  e.mark :: (if e.negative then '-' else '+').toUInt8 :: e.digits

/-- The power of ten. -/
def power (e : ExponentPart) : Int := if e.negative then -value e.digits else value e.digits

/-- The mark is one of the two letters, and digits follow on the sign. -/
def IsFormed (e : ExponentPart) : Prop :=
  isExponentMark e.mark = true ∧ e.digits ≠ [] ∧ ∀ b ∈ e.digits, isDigit b = true

/-- The part for a power of ten, with at least two digits. -/
def ofInt (mark : UInt8) (exponent : Int) : ExponentPart :=
  ⟨mark, decide (exponent < 0), zeroPad 2 (decimal exponent.natAbs)⟩

variable (mark : UInt8) (exponent : Int)

theorem text_ofInt : (ofInt mark exponent).text = exponentText mark exponent := by
  simp only [text, ofInt, exponentText, decide_eq_true_eq]

theorem power_ofInt : (ofInt mark exponent).power = exponent := by
  simp only [power, ofInt, value_zeroPad, value_decimal, decide_eq_true_eq]
  split <;> omega

theorem isFormed_ofInt {mark : UInt8} (h : isExponentMark mark = true) :
    (ofInt mark exponent).IsFormed := by
  refine ⟨h, ?_, isDigit_of_mem_zeroPad (isDigit_of_mem_decimal _)⟩
  have := length_decimal_pos exponent.natAbs
  rw [ofInt, ← List.length_pos_iff, length_zeroPad]
  omega

end ExponentPart

namespace DecimalNumeral

/-- The digits on both sides of the point. -/
def digits (n : DecimalNumeral) : Bytes := n.whole ++ n.fraction.getD []

/-- The bytes that write the numeral. -/
def text (n : DecimalNumeral) : Bytes :=
  n.whole ++ (n.fraction.elim [] fun fraction => '.'.toUInt8 :: fraction) ++
    n.exponent.elim [] ExponentPart.text

/-- The number that the numeral stands for. -/
def toRat (n : DecimalNumeral) : ℚ :=
  value n.digits * 10 ^ (n.exponent.elim 0 ExponentPart.power - (n.fraction.getD []).length)

/-- There is a digit before the point, and only digits stand where digits have to. -/
def IsFormed (n : DecimalNumeral) : Prop :=
  n.whole ≠ [] ∧ (∀ b ∈ n.digits, isDigit b = true) ∧ ∀ e ∈ n.exponent, e.IsFormed

/-- The number of digits from the first one on that is not zero. -/
def significant (n : DecimalNumeral) : Nat :=
  (n.digits.dropWhile fun b => b == '0'.toUInt8).length

/-- The numeral of fixed notation. -/
def ofPositional (alternate : Bool) (p : Positional) : DecimalNumeral where
  whole := p.whole
  fraction := if p.fraction.isEmpty && !alternate then none else some p.fraction
  exponent := none

/-- The numeral of scientific notation. -/
def ofScientific (upper alternate : Bool) (s : Scientific) : DecimalNumeral where
  whole := s.mantissa.whole
  fraction := (ofPositional alternate s.mantissa).fraction
  exponent := some {
    mark := (if upper then 'E' else 'e').toUInt8
    negative := decide (s.exponent < 0)
    digits := zeroPad 2 (decimal s.exponent.natAbs) }

variable (upper alternate : Bool) (p : Positional) (s : Scientific)

theorem getD_fraction_ofPositional :
    (ofPositional alternate p).fraction.getD [] = p.fraction := by
  unfold ofPositional
  dsimp only
  split
  case isTrue h =>
    rw [List.isEmpty_iff.mp (Bool.and_eq_true_iff.mp h).1]
    rfl
  case isFalse => rfl

theorem text_ofPositional : (ofPositional alternate p).text = p.text alternate := by
  unfold text ofPositional Positional.text
  split
  · simp
  · simp

theorem text_ofScientific : (ofScientific upper alternate s).text = s.text upper alternate := by
  have hmantissa := text_ofPositional alternate s.mantissa
  have hexponent := ExponentPart.text_ofInt (if upper then 'E' else 'e').toUInt8 s.exponent
  rw [text, ofPositional, Option.elim_none, List.append_nil] at hmantissa
  rw [Scientific.text, ← hmantissa, ← hexponent]
  rfl

theorem digits_ofPositional : (ofPositional alternate p).digits = p.whole ++ p.fraction := by
  rw [digits, getD_fraction_ofPositional]
  rfl

theorem digits_ofScientific : (ofScientific upper alternate s).digits = s.digits := by
  have hmantissa := digits_ofPositional alternate s.mantissa
  rw [digits] at hmantissa ⊢
  rw [Scientific.mantissa, List.take_append_drop] at hmantissa
  exact hmantissa

theorem toRat_ofPositional : (ofPositional alternate p).toRat = p.toRat := by
  rw [toRat, digits_ofPositional, getD_fraction_ofPositional, Positional.toRat, div_eq_mul_inv]
  simp [ofPositional, zpow_neg]

theorem toRat_ofScientific (h : s.digits ≠ []) :
    (ofScientific upper alternate s).toRat = s.toRat := by
  have hfraction : ((ofScientific upper alternate s).fraction.getD []).length =
      s.digits.length - 1 := by
    change ((ofPositional alternate s.mantissa).fraction.getD []).length = _
    rw [getD_fraction_ofPositional, Scientific.mantissa, List.length_drop]
  have hpower : (ofScientific upper alternate s).exponent.elim 0 ExponentPart.power =
      s.exponent := ExponentPart.power_ofInt _ _
  have hlength : 0 < s.digits.length := List.length_pos_iff.mpr h
  rw [toRat, digits_ofScientific, hfraction, hpower, Scientific.toRat]
  congr 2
  omega

theorem isFormed_ofPositional (hwhole : p.whole ≠ [])
    (hdigits : ∀ b ∈ p.whole ++ p.fraction, isDigit b = true) :
    (ofPositional alternate p).IsFormed := by
  refine ⟨hwhole, ?_, by simp [ofPositional]⟩
  rwa [digits_ofPositional]

theorem isFormed_ofScientific (h : s.digits ≠ []) (hdigits : ∀ b ∈ s.digits, isDigit b = true) :
    (ofScientific upper alternate s).IsFormed := by
  refine ⟨?_, ?_, ?_⟩
  · simpa [ofScientific, Scientific.mantissa] using h
  · rwa [digits_ofScientific]
  · intro e he
    obtain rfl := Option.some.inj he
    exact ExponentPart.isFormed_ofInt s.exponent (by cases upper <;> rfl)

theorem significant_ofScientific_le :
    (ofScientific upper alternate s).significant ≤ s.digits.length := by
  rw [significant, digits_ofScientific]
  exact (List.dropWhile_suffix _).length_le

/-- A number that is small against its last place has few significant digits. -/
theorem significant_ofPositional_le {k : Nat}
    (hdigits : ∀ b ∈ p.whole ++ p.fraction, isDigit b = true)
    (h : p.toRat < 10 ^ ((k : Int) - p.fraction.length)) :
    (ofPositional alternate p).significant ≤ k := by
  have hplaces : (0 : ℚ) < 10 ^ p.fraction.length := by positivity
  have hvalue : (value (p.whole ++ p.fraction) : ℚ) < 10 ^ k := by
    rwa [Positional.toRat, zpow_sub₀ (by norm_num), zpow_natCast, zpow_natCast,
      div_lt_div_iff_of_pos_right hplaces] at h
  rw [significant, digits_ofPositional]
  exact length_dropZeros_le hdigits (by exact_mod_cast hvalue)

end DecimalNumeral

end LeveledLog
