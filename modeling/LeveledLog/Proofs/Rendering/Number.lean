import LeveledLog.Proofs.Decimal.ReadBack
import LeveledLog.Proofs.Radix.Reading
import LeveledLog.Proofs.Rendering.Clean
import LeveledLog.Proofs.Rendering.DefaultReal
import LeveledLog.Proofs.Rendering.Form
import LeveledLog.Proofs.Runes

/-!
# The parts of numbers

Whatever the flags and the precision, a whole number is written as a sign, the prefix of its base
or none, and digits, and a finite number with a point as a sign, the prefix of base sixteen or
none, and a text that denotes a number. All of it is ASCII, so that it has as many runes as
bytes.
-/

namespace LeveledLog

open Numeral

namespace Radix

variable {radix : Radix} {upper : Bool} {s : Bytes} {r : ℚ}

/-- Digits denote the number that they stand for. -/
theorem Denotes.of_digits (h : s ≠ []) (hdigits : ∀ b ∈ s, radix.isDigit upper b = true) :
    Denotes radix upper s (radix.valueOf upper s) := by
  have hparts := Denotes.digits (p := ⟨s, []⟩) false h (by simpa using hdigits) .one
  simpa [Positional.text] using hparts

/-- Digits on the two sides of a point denote their number. -/
theorem Denotes.positional {p : Positional} (alternate : Bool) (hwhole : p.whole ≠ [])
    (hdigits : ∀ b ∈ p.whole ++ p.fraction, Numeral.isDigit b = true) :
    Denotes decimal upper (p.text alternate) p.toRat := by
  have hparts : Denotes decimal upper (p.text alternate ++ []) _ := .digits alternate hwhole (by
    simpa only [isDigit_decimal] using hdigits) .one
  rw [List.append_nil, valueOf_decimal upper hdigits, mul_one] at hparts
  exact hparts

/-- Digits and a power of ten denote their number. -/
theorem Denotes.scientific {s : Scientific} (alternate : Bool) (h : s.digits ≠ [])
    (hdigits : ∀ b ∈ s.digits, Numeral.isDigit b = true) :
    Denotes decimal upper (s.text upper alternate) s.toRat := by
  have hsplit : s.mantissa.whole ++ s.mantissa.fraction = s.digits := List.take_append_drop ..
  have hlength : s.mantissa.fraction.length = s.digits.length - 1 := List.length_drop
  have hpos : 0 < s.digits.length := List.length_pos_iff.mpr h
  have hparts : Denotes decimal upper (s.mantissa.text alternate ++ exponentText _ s.exponent) _ :=
    .digits alternate (by simpa [Scientific.mantissa] using h)
      (by simpa only [hsplit, isDigit_decimal] using hdigits) (.scaled s.exponent rfl)
  rw [hsplit, valueOf_decimal upper hdigits, hlength] at hparts
  have hvalue : s.toRat = value s.digits / (decimal.base : ℚ) ^ (s.digits.length - 1) *
      decimal.exponentBase ^ s.exponent := by
    have hexponent : s.exponent + 1 - s.digits.length =
        s.exponent - ((s.digits.length - 1 : Nat) : Int) := by omega
    have hbase : (decimal.base : ℚ) = 10 ∧ decimal.exponentBase = 10 := ⟨rfl, rfl⟩
    rw [Scientific.toRat, hexponent, zpow_sub₀ (by norm_num), zpow_natCast, hbase.1, hbase.2]
    ring
  rw [hvalue]
  exact hparts

end Radix

open Radix (Denotes)

/-! ## General notation -/

section General

variable {upper : Bool}

/-- General notation to a number of digits denotes a number. -/
theorem Decimal.denotes_general (d : Decimal) (precision : Nat) (alternate : Bool) :
    ∃ r, Denotes .decimal upper (d.general precision upper alternate) r := by
  unfold general
  extract_lets significant s keepsZeros p
  obtain ⟨hlength, hdigits⟩ : s.digits.length = significant - 1 + 1 ∧
      ∀ b ∈ s.digits, isDigit b = true := d.scientific_digits _
  split
  · split
    · exact ⟨_, .scientific alternate (List.length_pos_iff.mp (by omega)) hdigits⟩
    · refine ⟨_, .scientific alternate ?_ ?_⟩
      · have hne : s.digits ≠ [] := List.length_pos_iff.mp (by omega)
        simpa [Scientific.trimmed] using fun h => absurd h hne
      · intro b hb
        rcases List.mem_append.mp hb with hb | hb
        · exact hdigits b (List.mem_of_mem_take hb)
        · exact hdigits b (List.mem_of_mem_drop (dropLastZeros_subset _ hb))
  · obtain ⟨_, _, hwhole, hall⟩ := d.fixed_digits ((significant : Int) - 1 - s.exponent).toNat
    split
    · exact ⟨_, .positional alternate hwhole hall⟩
    · refine ⟨_, .positional alternate hwhole fun b hb => ?_⟩
      rcases List.mem_append.mp hb with hb | hb
      · exact hall b (List.mem_append_left _ hb)
      · exact hall b (List.mem_append_right _ (dropLastZeros_subset _ hb))

/-- The shortest text denotes the same number as the scientific text with the fewest digits that
reads back. -/
theorem Binary64.denotes_shortest {x : Binary64} (hx : x.magnitude < infinity) :
    Denotes .decimal upper (x.shortest upper)
      (x.toDyadic.toDecimal.scientific x.shortestPlaces).toRat := by
  obtain ⟨_, hreads, _⟩ := shortestPlaces_spec hx
  have hfixed := toRat_fixed_eq_readsBack hreads
  obtain ⟨hlength, hdigits⟩ := x.toDyadic.toDecimal.scientific_digits x.shortestPlaces
  unfold shortest
  extract_lets d places s
  split
  · exact .scientific false (List.length_pos_iff.mp (hlength ▸ Nat.succ_pos _)) hdigits
  case isFalse hlayout =>
    obtain ⟨_, _, hwhole, hall⟩ := d.fixed_digits ((places : Int) - s.exponent).toNat
    have hsmall : s.exponent < 6 := by
      unfold scientificFrom at hlayout
      omega
    rw [← hfixed hsmall]
    exact .positional false hwhole hall

theorem isExponentMark_of_isDigit {b : UInt8} (h : isDigit b = true) :
    isExponentMark b = false := by
  have hmarks : isDigit 'e'.toUInt8 = false ∧ isDigit 'E'.toUInt8 = false := by decide
  rw [isExponentMark, Bool.or_eq_false_iff, beq_eq_false_iff_ne, beq_eq_false_iff_ne]
  constructor
  · rintro rfl
    exact absurd h (by rw [hmarks.1]; exact Bool.false_ne_true)
  · rintro rfl
    exact absurd h (by rw [hmarks.2]; exact Bool.false_ne_true)

/-- A power begins with its mark. -/
theorem Radix.IsPower.isExponentMark_head {tail : Bytes} {power : ℚ}
    (h : Radix.IsPower .decimal upper tail power) :
    ∀ b ∈ tail.head?, isExponentMark b = true := by
  cases h with
  | one => simp
  | @scaled mark exponent hmark =>
    intro b hb
    obtain rfl := Option.some.inj hb
    revert hmark
    cases upper <;> rintro ⟨⟩ <;> rfl

/-- The parts of a text in general notation are told apart by the mark of the power. -/
theorem splitExponent {p : Positional} {tail : Bytes} (alternate : Bool)
    (hdigits : ∀ b ∈ p.whole ++ p.fraction, isDigit b = true)
    (hpower : ∀ b ∈ tail.head?, isExponentMark b = true) :
    (p.text alternate ++ tail).takeWhile (fun b => !isExponentMark b) = p.text alternate ∧
      (p.text alternate ++ tail).dropWhile (fun b => !isExponentMark b) = tail := by
  have htext : ∀ b ∈ p.text alternate, (!isExponentMark b) = true := by
    have hall : ∀ b ∈ p.whole ++ p.fraction, (!isExponentMark b) = true := by
      intro b hb
      rw [isExponentMark_of_isDigit (hdigits b hb), Bool.not_false]
    intro b hb
    unfold Positional.text at hb
    split at hb
    · exact hall b (List.mem_append_left _ hb)
    · rcases List.mem_append.mp hb with hb | hb
      · exact hall b (List.mem_append_left _ hb)
      · rcases List.mem_cons.mp hb with rfl | hb
        · decide
        · exact hall b (List.mem_append_right _ hb)
  have htail : tail.takeWhile (fun b => !isExponentMark b) = [] ∧
      tail.dropWhile (fun b => !isExponentMark b) = tail := by
    cases tail with
    | nil => exact ⟨rfl, rfl⟩
    | cons mark more =>
      have hstop : isExponentMark mark = true := hpower mark rfl
      rw [List.takeWhile_cons, List.dropWhile_cons, hstop]
      exact ⟨rfl, rfl⟩
  rw [List.takeWhile_append_of_pos htext, List.dropWhile_append_of_pos htext, htail.1, htail.2,
    List.append_nil]
  exact ⟨rfl, rfl⟩

/-- A point and zeros are put in between the digits and the power. -/
theorem padSignificant_append {p : Positional} {tail : Bytes} (alternate : Bool)
    (hdigits : ∀ b ∈ p.whole ++ p.fraction, isDigit b = true)
    (hpower : ∀ b ∈ tail.head?, isExponentMark b = true) :
    padSignificant (p.text alternate ++ tail) =
      p.whole ++ '.'.toUInt8 :: (p.fraction ++ zeros (6 - (significantDigits (p.text alternate) +
        if p.text alternate == utf8 "0" then 1 else 0))) ++ tail := by
  have hpoint : '.'.toUInt8 ∉ p.whole := by
    intro hmem
    have := hdigits _ (List.mem_append_left _ hmem)
    exact absurd this (by decide)
  obtain ⟨hmantissa, hexponent⟩ := splitExponent alternate hdigits hpower
  unfold padSignificant
  extract_lets mantissa exponent shown pointed
  have hpointed : pointed = p.whole ++ '.'.toUInt8 :: p.fraction := by
    have hutf8 : utf8 "." = ['.'.toUInt8] := rfl
    simp only [pointed, mantissa, hmantissa, Positional.text, List.contains_eq_mem]
    split
    case isTrue hbare =>
      have hnone : p.fraction = [] := List.isEmpty_iff.mp (Bool.and_eq_true_iff.mp hbare).1
      rw [if_neg (by simpa using hpoint), hutf8, hnone]
    case isFalse => rw [if_pos (by simp)]
  simp only [hpointed, shown, mantissa, hmantissa, exponent, hexponent, List.append_assoc,
    List.cons_append]

/-- Zeros behind a fraction change no number. -/
theorem Radix.Denotes.fraction_append_zeros {radix : Radix} {p : Positional} {tail : Bytes}
    {power : ℚ} (n : Nat) (hwhole : p.whole ≠ [])
    (hdigits : ∀ b ∈ p.whole ++ p.fraction, radix.isDigit upper b = true)
    (hpower : Radix.IsPower radix upper tail power) :
    Denotes radix upper (p.whole ++ '.'.toUInt8 :: (p.fraction ++ zeros n) ++ tail)
      (radix.valueOf upper (p.whole ++ p.fraction) / radix.base ^ p.fraction.length * power) := by
  have hparts := Denotes.digits (p := { p with fraction := p.fraction ++ zeros n }) true hwhole (by
    intro b hb
    rw [← List.append_assoc] at hb
    rcases List.mem_append.mp hb with hb | hb
    · exact hdigits b hb
    · exact isDigit_of_mem_zeros radix upper hb) hpower
  have hbase : (radix.base : ℚ) ≠ 0 := by
    have := radix.two_le_base
    exact_mod_cast (by omega : radix.base ≠ 0)
  have hvalue : (radix.valueOf upper (p.whole ++ (p.fraction ++ zeros n)) : ℚ) /
      radix.base ^ (p.fraction ++ zeros n).length =
        radix.valueOf upper (p.whole ++ p.fraction) / radix.base ^ p.fraction.length := by
    rw [← List.append_assoc, valueOf_append, valueOf_zeros, List.length_append, length_zeros,
      Nat.add_zero, pow_add]
    push_cast
    field_simp
  have htext : ({ p with fraction := p.fraction ++ zeros n } : Positional).text true =
      p.whole ++ '.'.toUInt8 :: (p.fraction ++ zeros n) := by
    rw [Positional.text, Bool.not_true, Bool.and_false, if_neg Bool.false_ne_true]
  rw [htext] at hparts
  rw [← hvalue]
  exact hparts

/-- A point with zeros behind it, or zeros behind a fraction, change no number. -/
theorem Radix.Denotes.padSignificant {s : Bytes} {r : ℚ} (h : Denotes .decimal upper s r) :
    Denotes .decimal upper (padSignificant s) r := by
  cases h with
  | @digits p tail power alternate hwhole hdigits hpower =>
    have hdecimal : ∀ b ∈ p.whole ++ p.fraction, Numeral.isDigit b = true := by
      simpa only [isDigit_decimal] using hdigits
    rw [padSignificant_append alternate hdecimal hpower.isExponentMark_head]
    exact .fraction_append_zeros _ hwhole hdigits hpower

end General

/-! ## Hexadecimal notation -/

theorem Numeral.text_ne_nil {base : Nat} (hbase : 2 ≤ base) (upper : Bool) (n : Nat) :
    text base upper n ≠ [] := by
  by_cases h : n < base
  · rw [text_of_lt upper h]
    exact List.cons_ne_nil _ _
  · rw [text_of_le hbase upper (Nat.le_of_not_lt h)]
    exact List.append_ne_nil_of_right_ne_nil _ (List.cons_ne_nil _ _)

/-- The significand has a digit before the point and digits only. -/
theorem Binary64.hexSignificand_digits (x : Binary64) (places : Option Nat) (upper : Bool) :
    (x.hexSignificand places upper).whole ≠ [] ∧
      ∀ b ∈ (x.hexSignificand places upper).whole ++ (x.hexSignificand places upper).fraction,
        Radix.hexadecimal.isDigit upper b = true := by
  unfold hexSignificand
  extract_lets kept rounded whole fraction
  have hwhole : ∀ b ∈ whole, Radix.hexadecimal.isDigit upper b = true :=
    Radix.hexadecimal.isDigit_of_mem_text upper _
  have hfraction : ∀ b ∈ fraction, Radix.hexadecimal.isDigit upper b = true := by
    intro b hb
    simp only [fraction] at hb
    split at hb
    · cases hb
    · rcases List.mem_append.mp hb with hb | hb
      · exact Radix.isDigit_of_mem_zeros _ upper hb
      · exact Radix.hexadecimal.isDigit_of_mem_text upper _ b hb
  cases places with
  | none =>
    refine ⟨Numeral.text_ne_nil (by decide) upper _, fun b hb => ?_⟩
    rcases List.mem_append.mp hb with hb | hb
    · exact hwhole b hb
    · exact hfraction b (dropLastZeros_subset _ hb)
  | some p =>
    refine ⟨Numeral.text_ne_nil (by decide) upper _, fun b hb => ?_⟩
    rcases List.mem_append.mp hb with hb | hb
    · exact hwhole b hb
    · rcases List.mem_append.mp hb with hb | hb
      · exact hfraction b hb
      · exact Radix.isDigit_of_mem_zeros _ upper hb

/-- Behind its prefix a text in base sixteen denotes a number. -/
theorem Binary64.denotes_hexadecimal (x : Binary64) (places : Option Nat) (upper alternate : Bool) :
    ∃ s r, x.hexadecimal places upper alternate = Radix.hexadecimal.mark upper ++ s ∧
      Denotes .hexadecimal upper s r := by
  obtain ⟨hwhole, hdigits⟩ := x.hexSignificand_digits places upper
  exact ⟨_, _, List.append_assoc .., .digits alternate hwhole hdigits (.scaled _ rfl)⟩

/-! ## Renderings -/

namespace Rendering

variable {spec : Spec} {radix : Radix}

/-- The digits of a whole number are zeros and its numeral, which only the zero lacks whose
precision is zero. They are no fewer than the precision. -/
theorem integerDigits_eq (spec : Spec) (radix : Radix) (upper : Bool) (magnitude : Nat) :
    ∃ count, integerDigits spec radix upper magnitude = zeros count ++
        (if magnitude = 0 ∧ spec.precision = some 0 then [] else text radix.base upper magnitude) ∧
      spec.precision.getD 0 ≤ (integerDigits spec radix upper magnitude).length := by
  have hleast : spec.precision.getD 0 ≤
      (leastDigits spec.precision radix upper magnitude).length := by
    rw [leastDigits, length_zeroPad]
    exact le_max_left _ _
  unfold integerDigits
  extract_lets digits
  split
  · unfold leadingZero
    split
    · exact ⟨_, rfl, hleast⟩
    · exact ⟨_ + 1, rfl, hleast.trans (Nat.le_succ _)⟩
  · exact ⟨_, rfl, hleast⟩

theorem isDigit_of_mem_integerDigits {upper : Bool} {magnitude : Nat} :
    ∀ b ∈ integerDigits spec radix upper magnitude, radix.isDigit upper b = true := by
  obtain ⟨count, hdigits, _⟩ := integerDigits_eq spec radix upper magnitude
  rw [hdigits]
  intro b hb
  rcases List.mem_append.mp hb with hb | hb
  · exact Radix.isDigit_of_mem_zeros _ upper hb
  · split at hb
    · cases hb
    · exact radix.isDigit_of_mem_text upper _ b hb

/-- The digits of a whole number stand for it, also when there are none. -/
theorem valueOf_integerDigits (upper : Bool) (magnitude : Nat) :
    radix.valueOf upper (integerDigits spec radix upper magnitude) = magnitude := by
  obtain ⟨count, hdigits, _⟩ := integerDigits_eq spec radix upper magnitude
  rw [hdigits, radix.valueOf_zeros_append]
  split
  case isTrue hnone =>
    rw [hnone.1]
    rfl
  case isFalse => exact radix.valueOf_text upper magnitude

theorem integerDigits_ne_nil (upper : Bool) {magnitude : Nat}
    (h : ¬ (magnitude = 0 ∧ spec.precision = some 0)) :
    integerDigits spec radix upper magnitude ≠ [] := by
  obtain ⟨count, hdigits, _⟩ := integerDigits_eq spec radix upper magnitude
  rw [hdigits, if_neg h]
  exact List.append_ne_nil_of_right_ne_nil _ (text_ne_nil radix.two_le_base upper _)

/-- The digits of a whole number denote it, unless there are none. -/
theorem denotes_integerDigits (upper : Bool) {magnitude : Nat}
    (h : ¬ (magnitude = 0 ∧ spec.precision = some 0)) :
    Denotes radix upper (integerDigits spec radix upper magnitude) magnitude := by
  have hne : integerDigits spec radix upper magnitude ≠ [] := integerDigits_ne_nil upper h
  have hdigits := Denotes.of_digits hne isDigit_of_mem_integerDigits
  rwa [valueOf_integerDigits] at hdigits

/-- General notation without a precision denotes the same number as the scientific text with the
fewest digits that reads back. -/
theorem denotes_generalText_of_none {x : Binary64} (hx : x.magnitude < Binary64.infinity)
    (hprecision : spec.precision = none) :
    Denotes .decimal (spec.verb == .generalUpper) (generalText spec x)
      (x.toDyadic.toDecimal.scientific x.shortestPlaces).toRat := by
  have hshortest : Denotes .decimal (spec.verb == .generalUpper) _ _ :=
    Binary64.denotes_shortest hx
  unfold generalText
  rw [hprecision]
  dsimp only
  split
  · exact hshortest.padSignificant
  · exact hshortest

/-- General notation of a finite number denotes a number. -/
theorem denotes_generalText {x : Binary64} (hx : x.magnitude < Binary64.infinity) :
    ∃ r, Denotes .decimal (spec.verb == .generalUpper) (generalText spec x) r := by
  cases hprecision : spec.precision with
  | none => exact ⟨_, denotes_generalText_of_none hx hprecision⟩
  | some precision =>
    unfold generalText
    rw [hprecision]
    exact Decimal.denotes_general _ _ _

/-- The text of a finite number behind its prefix denotes a number. -/
theorem denotes_realText {k : Kind} {x : Binary64} (hx : x.magnitude < Binary64.infinity)
    (hform : spec.verb.form k = .real radix) :
    ∃ s r, realText spec x = radix.mark spec.verb.isUpper ++ s ∧
      Denotes radix spec.verb.isUpper s r := by
  have hscientific (upper : Bool) (places : Nat) : ∃ r, Denotes .decimal upper
      ((x.toDyadic.toDecimal.scientific places).text upper spec.sharp) r := by
    obtain ⟨hlength, hdigits⟩ := x.toDyadic.toDecimal.scientific_digits places
    have hne : (x.toDyadic.toDecimal.scientific places).digits ≠ [] :=
      List.length_pos_iff.mp (hlength ▸ Nat.succ_pos _)
    exact ⟨_, .scientific spec.sharp hne hdigits⟩
  have hgeneral : ∃ r, Denotes .decimal (spec.verb == .generalUpper) (generalText spec x) r :=
    denotes_generalText hx
  have hradix : radix =
      if spec.verb = .hex ∨ spec.verb = .hexUpper then .hexadecimal else .decimal := by
    revert hform
    generalize spec.verb = v
    cases v <;> cases k <;> simp [Verb.form] <;> rintro rfl <;> rfl
  subst hradix
  unfold realText
  split
  case h_1 hverb =>
    rw [hverb]
    obtain ⟨r, hr⟩ := hscientific false (spec.precision.getD defaultPlaces)
    exact ⟨_, r, rfl, hr⟩
  case h_2 hverb =>
    rw [hverb]
    obtain ⟨r, hr⟩ := hscientific true (spec.precision.getD defaultPlaces)
    exact ⟨_, r, rfl, hr⟩
  case h_3 hverb =>
    rw [hverb]
    obtain ⟨_, _, hwhole, hall⟩ :=
      x.toDyadic.toDecimal.fixed_digits (spec.precision.getD defaultPlaces)
    exact ⟨_, _, rfl, .positional spec.sharp hwhole hall⟩
  case h_4 hverb =>
    rw [hverb]
    exact x.denotes_hexadecimal spec.precision false spec.sharp
  case h_5 hverb =>
    rw [hverb]
    exact x.denotes_hexadecimal spec.precision true spec.sharp
  case h_6 _ hscientificUpper _ hhex hhexUpper =>
    obtain ⟨r, hr⟩ := hgeneral
    have hupper : spec.verb.isUpper = (spec.verb == .generalUpper) := by
      revert hscientificUpper hhexUpper
      generalize spec.verb = v
      cases v <;> simp [Verb.isUpper]
    rw [if_neg (not_or.mpr ⟨hhex, hhexUpper⟩), hupper]
    exact ⟨_, r, rfl, hr⟩

/-! ## Reading renderings -/

theorem sign_mem (spec : Spec) (negative : Bool) :
    spec.sign negative ∈ [[], utf8 "-", utf8 "+", utf8 " "] := by
  unfold Spec.sign
  split
  · decide
  split
  · decide
  split <;> decide

/-- A blank is no sign. -/
theorem withoutBlanks_sign (spec : Spec) (negative : Bool) :
    Radix.withoutBlanks (spec.sign negative) =
      if negative then utf8 "-" else if spec.plus then utf8 "+" else [] := by
  unfold Spec.sign
  split
  · rfl
  split
  · rfl
  split <;> rfl

theorem withoutBlanks_sign_cases (spec : Spec) (negative : Bool) :
    Radix.withoutBlanks (spec.sign negative) = [] ∨
      Radix.withoutBlanks (spec.sign negative) = utf8 "-" ∨
      Radix.withoutBlanks (spec.sign negative) = utf8 "+" := by
  rw [withoutBlanks_sign]
  split
  · exact .inr (.inl rfl)
  split
  · exact .inr (.inr rfl)
  · exact .inl rfl

theorem withoutBlanks_sign_eq_minus_iff (spec : Spec) (negative : Bool) :
    Radix.withoutBlanks (spec.sign negative) = utf8 "-" ↔ negative = true := by
  rw [withoutBlanks_sign]
  cases negative with
  | true => exact iff_of_true rfl rfl
  | false => cases spec.plus <;> decide

theorem withoutBlanks_mark (radix : Radix) (upper : Bool) :
    Radix.withoutBlanks (radix.mark upper) = radix.mark upper := by
  cases radix <;> cases upper <;> rfl

theorem withoutBlanks_zeros (n : Nat) : Radix.withoutBlanks (zeros n) = zeros n := by
  refine Radix.withoutBlanks_of_visible fun b hb => ?_
  rw [List.eq_of_mem_replicate hb]
  decide

/-- Without its blanks a fitted rendering has nothing but zeros between its parts, and those only
under the zero flag. -/
theorem withoutBlanks_fit (spec : Spec) (r : Rendering) : ∃ count,
    Radix.withoutBlanks (r.fit spec) =
        Radix.withoutBlanks r.lead ++ (zeros count ++ Radix.withoutBlanks r.rest) ∧
      (spec.zero = false ∨ r.zeroFill = false → count = 0) := by
  have hblanks (n : Nat) : Radix.withoutBlanks (blanks n) = [] := by
    refine List.filter_eq_nil_iff.mpr fun b hb => ?_
    rw [List.eq_of_mem_replicate hb]
    decide
  have hbytes : Radix.withoutBlanks r.bytes =
      Radix.withoutBlanks r.lead ++ (zeros 0 ++ Radix.withoutBlanks r.rest) :=
    Radix.withoutBlanks_append ..
  cases hminus : spec.minus with
  | true =>
    refine ⟨0, ?_, fun _ => rfl⟩
    rw [fit_of_minus hminus, Radix.withoutBlanks_append, hblanks, List.append_nil, hbytes]
  | false =>
    by_cases hfill : spec.zero = true ∧ r.zeroFill = true
    · refine ⟨r.shortfall spec.width, ?_, ?_⟩
      · rw [fit_of_zeros hminus hfill, Radix.withoutBlanks_append, Radix.withoutBlanks_append,
          withoutBlanks_zeros, List.append_assoc]
      · rw [hfill.1, hfill.2]
        simp
    · refine ⟨0, ?_, fun _ => rfl⟩
      rw [fit_of_blanks hminus hfill, Radix.withoutBlanks_append, hblanks, List.nil_append, hbytes]

/-- However it is fitted to a width, a number with its sign and its prefix in front of its digits
is read as the same number. -/
theorem read?_fit {r : Rendering} {upper : Bool} {sign mark : Bytes} {number : ℚ} (spec : Spec)
    (hlead : Radix.withoutBlanks r.lead = sign ++ mark)
    (hsign : sign = [] ∨ sign = utf8 "-" ∨ sign = utf8 "+")
    (hmark : mark = [] ∨ mark = radix.mark upper) (hrest : Denotes radix upper r.rest number) :
    radix.read? upper (r.fit spec) = some (if sign = utf8 "-" then -number else number) := by
  obtain ⟨count, hfit, _⟩ := withoutBlanks_fit spec r
  refine (hrest.zeros_append count).read? ?_ hsign hmark
  rw [hfit, hlead, Radix.withoutBlanks_of_visible hrest.visible, List.append_assoc]

/-! ## Runes -/

theorem ascii_of_mem_sign {negative : Bool} : ∀ b ∈ spec.sign negative, b.toNat < 0x80 := by
  have hall : ∀ sign ∈ [[], utf8 "-", utf8 "+", utf8 " "], sign.all (fun b => b.toNat < 0x80) := by
    decide
  simpa using hall _ (sign_mem spec negative)

theorem ascii_of_mem_mark (radix : Radix) (upper : Bool) :
    ∀ b ∈ radix.mark upper, b.toNat < 0x80 := by
  have hall : (radix.mark upper).all (fun b => b.toNat < 0x80) := by
    cases radix <;> cases upper <;> decide
  simpa using hall

/-- Numbers are measured alike in bytes and in runes. -/
theorem runeCount_integer (spec : Spec) (radix : Radix) (upper negative : Bool) (magnitude : Nat) :
    Bytes.runeCount (integer spec radix upper negative magnitude).bytes =
      (integer spec radix upper negative magnitude).bytes.length := by
  refine Bytes.runeCount_of_ascii fun b hb => ?_
  rcases List.mem_append.mp hb with hb | hb
  · rcases List.mem_append.mp hb with hb | hb
    · exact ascii_of_mem_sign b hb
    · split at hb
      · exact ascii_of_mem_mark radix upper b hb
      · cases hb
  · have := Radix.visible_of_isDigit (isDigit_of_mem_integerDigits b hb)
    omega

/-- Only a finite number is filled up with zeros and measured as a number. -/
theorem zeroFill_real (spec : Spec) (x : Binary64) :
    (real spec x).zeroFill = decide (x.magnitude < Binary64.infinity) ∧
      (real spec x).isNumber = decide (x.magnitude < Binary64.infinity) := by
  by_cases hx : x.magnitude < Binary64.infinity
  · rw [real_of_finite spec hx, decide_eq_true hx]
    exact ⟨rfl, rfl⟩
  · have hname : x.isNaN = true ∨ x.isInfinite = true := by
      rw [Binary64.isNaN, Binary64.isInfinite, decide_eq_true_eq, beq_iff_eq]
      omega
    rw [decide_eq_false hx]
    unfold real
    split
    · exact ⟨rfl, rfl⟩
    case isFalse hnan =>
      rw [if_pos (hname.resolve_left hnan)]
      exact ⟨rfl, rfl⟩

/-- A finite number is measured alike in bytes and in runes. -/
theorem runeCount_real {k : Kind} {x : Binary64} (hx : x.magnitude < Binary64.infinity)
    (hform : spec.verb.form k = .real radix) :
    Bytes.runeCount (real spec x).bytes = (real spec x).bytes.length := by
  obtain ⟨s, r, htext, hdenotes⟩ := denotes_realText hx hform
  rw [real_of_finite spec hx, htext]
  refine Bytes.runeCount_of_ascii fun b hb => ?_
  rcases List.mem_append.mp hb with hb | hb
  · exact ascii_of_mem_sign b hb
  · rcases List.mem_append.mp hb with hb | hb
    · exact ascii_of_mem_mark radix _ b hb
    · have := hdenotes.visible b hb
      omega

/-- The rendering of any argument is measured in runes. -/
theorem size_ofArgument {a : Argument} (haccepts : spec.verb.accepts a.kind = true) :
    (ofArgument spec a).size = Bytes.runeCount (ofArgument spec a).bytes := by
  unfold size
  split
  case isFalse => rfl
  case isTrue hnumber =>
    cases hform : spec.verb.form a.kind with
    | text =>
      obtain ⟨s, hs⟩ := ofArgument_text haccepts hform
      rw [hs] at hnumber
      cases hnumber
    | whole radix =>
      obtain ⟨n, _, hn⟩ := ofArgument_whole haccepts hform
      rw [hn, runeCount_integer]
    | real radix =>
      obtain ⟨x, _, hx⟩ := ofArgument_real haccepts hform
      rw [hx, (zeroFill_real spec x).2, decide_eq_true_eq] at hnumber
      rw [hx, runeCount_real hnumber hform]

end Rendering

end LeveledLog
