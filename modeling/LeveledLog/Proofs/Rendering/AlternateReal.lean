import LeveledLog.Proofs.Rendering.Number

/-!
# The alternate form of default texts

In its alternate form general notation without a precision has a point and shows six digits at
least. The zeros that it takes for this stand at the end of the fraction and in front of the power
of ten, where they do not change the number.
-/

namespace LeveledLog

open Numeral
open Binary64 (IsNearest valueAt infinity)

/-- The digits of a text are those on the two sides of its point. -/
theorem Positional.filter_text {p : Positional} (alternate : Bool)
    (hdigits : ∀ b ∈ p.whole ++ p.fraction, isDigit b = true) :
    (p.text alternate).filter isDigit = p.whole ++ p.fraction := by
  have hpoint : isDigit '.'.toUInt8 = false := by decide
  have hkept := List.filter_eq_self.mpr hdigits
  unfold text
  split
  case isTrue hbare =>
    have hnone : p.fraction = [] := List.isEmpty_iff.mp (Bool.and_eq_true_iff.mp hbare).1
    rwa [hnone, List.append_nil] at hkept ⊢
  case isFalse =>
    rwa [List.filter_append, List.filter_cons_of_neg (by simp [hpoint]), ← List.filter_append]

namespace DecimalNumeral

/-- The digits and the point, without the power of ten. -/
def mantissa (n : DecimalNumeral) : Positional := ⟨n.whole, n.fraction.getD []⟩

/-- The numeral with a point and with more zeros at the end of its fraction. -/
def filled (n : DecimalNumeral) (count : Nat) : DecimalNumeral :=
  { n with fraction := some (n.fraction.getD [] ++ zeros count) }

variable {n : DecimalNumeral}

theorem text_eq (n : DecimalNumeral) :
    n.text = n.mantissa.text n.fraction.isSome ++ n.exponent.elim [] ExponentPart.text := by
  unfold text mantissa Positional.text
  cases n.fraction <;> simp

theorem digits_filled (n : DecimalNumeral) (count : Nat) :
    (n.filled count).digits = n.digits ++ zeros count := (List.append_assoc ..).symm

/-- The power of ten of a numeral begins with its mark. -/
theorem IsFormed.isExponentMark_head (h : n.IsFormed) :
    ∀ b ∈ (n.exponent.elim [] ExponentPart.text).head?, isExponentMark b = true := by
  cases hexponent : n.exponent with
  | none => simp
  | some e =>
    intro b hb
    obtain rfl : e.mark = b := Option.some.inj hb
    exact (h.2.2 e hexponent).1

/-- A numeral stays one when zeros are put at the end of its fraction. -/
theorem IsFormed.filled (h : n.IsFormed) (count : Nat) : (n.filled count).IsFormed := by
  refine ⟨h.1, ?_, h.2.2⟩
  rw [digits_filled]
  intro b hb
  rcases List.mem_append.mp hb with hb | hb
  · exact h.2.1 b hb
  · exact isDigit_of_mem_zeros hb

/-- Zeros at the end of the fraction do not change the number. -/
theorem toRat_filled (n : DecimalNumeral) (count : Nat) : (n.filled count).toRat = n.toRat := by
  have hten : (10 : ℚ) ≠ 0 := by norm_num
  have hvalue : (value (n.filled count).digits : ℚ) = value n.digits * 10 ^ count := by
    rw [digits_filled, value_append, value_zeros, length_zeros, Nat.add_zero]
    push_cast
    rfl
  have hlength : ((n.filled count).fraction.getD []).length =
      (n.fraction.getD []).length + count := by
    rw [DecimalNumeral.filled, Option.getD_some, List.length_append, length_zeros]
  have hpower : (n.filled count).exponent = n.exponent := rfl
  rw [toRat, hvalue, hlength, hpower, toRat, Nat.cast_add, ← sub_sub, zpow_sub₀ hten, zpow_natCast]
  field_simp

/-- Zeros at the end of the fraction are significant digits of a number that is not zero. -/
theorem significant_filled (h : value n.digits ≠ 0) (count : Nat) :
    (n.filled count).significant = n.significant + count := by
  have hne : (n.digits.dropWhile fun b => b == '0'.toUInt8).isEmpty = false := by
    rw [Bool.eq_false_iff, ne_eq, List.isEmpty_iff]
    intro hnone
    obtain ⟨zeros, hzeros⟩ := exists_zeros_append n.digits
    rw [hnone, List.append_nil] at hzeros
    exact h (hzeros ▸ value_zeros zeros)
  rw [significant, digits_filled, List.dropWhile_append, hne, if_neg Bool.false_ne_true,
    List.length_append, length_zeros, significant]

/-- A numeral has a point exactly if it has a fraction, and no second one. -/
theorem IsFormed.count_point (h : n.IsFormed) :
    n.text.count '.'.toUInt8 = if n.fraction.isSome then 1 else 0 := by
  have hpoint (s : Bytes) (hs : ∀ b ∈ s, isDigit b = true) : s.count '.'.toUInt8 = 0 := by
    refine List.count_eq_zero.mpr fun hmem => ?_
    exact absurd (hs _ hmem) (by decide)
  have hwhole : n.whole.count '.'.toUInt8 = 0 :=
    hpoint _ fun b hb => h.2.1 b (List.mem_append_left _ hb)
  have hfraction : (n.fraction.getD []).count '.'.toUInt8 = 0 :=
    hpoint _ fun b hb => h.2.1 b (List.mem_append_right _ hb)
  have hpower : (n.exponent.elim [] ExponentPart.text).count '.'.toUInt8 = 0 := by
    cases hexponent : n.exponent with
    | none => rfl
    | some e =>
      obtain ⟨hmark, _, hdigits⟩ := h.2.2 e hexponent
      have hne : e.mark ≠ '.'.toUInt8 := by
        intro heq
        rw [heq] at hmark
        exact absurd hmark (by decide)
      have hsign : (if e.negative then '-' else '+').toUInt8 ≠ '.'.toUInt8 := by
        cases e.negative <;> decide
      rw [Option.elim_some, ExponentPart.text, List.count_cons_of_ne hne,
        List.count_cons_of_ne hsign, hpoint _ hdigits]
  unfold text
  cases hcase : n.fraction with
  | none => simp [hwhole, hpower]
  | some fraction =>
    rw [hcase, Option.getD_some] at hfraction
    simp [hwhole, hfraction, hpower]

/-- The alternate form of a number that is not zero is the numeral with zeros at the end of its
fraction. -/
theorem IsFormed.padSignificant_text (h : n.IsFormed) (hne : value n.digits ≠ 0) :
    padSignificant n.text = (n.filled (6 - n.significant)).text := by
  have hdigits : ∀ b ∈ n.mantissa.whole ++ n.mantissa.fraction, isDigit b = true := h.2.1
  have hfilter := Positional.filter_text n.fraction.isSome hdigits
  have hsignificant : significantDigits (n.mantissa.text n.fraction.isSome) = n.significant := by
    rw [significantDigits, hfilter]
    rfl
  have hnonzero : (n.mantissa.text n.fraction.isSome == utf8 "0") = false := by
    rw [beq_eq_false_iff_ne]
    intro hzero
    have hzeros : n.digits = (utf8 "0").filter isDigit := by
      rw [← hzero, hfilter]
      rfl
    exact hne (hzeros ▸ by decide)
  rw [text_eq, padSignificant_append n.fraction.isSome hdigits h.isExponentMark_head,
    hsignificant, hnonzero]
  rfl

end DecimalNumeral

namespace Binary64

variable {x : Binary64}

/-- The shortest text of both zeros is their digit. -/
theorem shortest_of_zero (h : x.magnitude = 0) (upper : Bool) : x.shortest upper = utf8 "0" := by
  have hword := x.bits.toNat_lt
  have hbits : x.bits.toNat = 0 ∨ x.bits.toNat = signBit := by
    unfold magnitude signBit at *
    omega
  have hx : x = ⟨0⟩ ∨ x = ⟨0x8000000000000000⟩ := by
    obtain ⟨bits⟩ := x
    rcases hbits with hbits | hbits
    · exact .inl (congrArg mk (UInt64.toNat_inj.mp hbits))
    · exact .inr (congrArg mk (UInt64.toNat_inj.mp hbits))
  rcases hx with rfl | rfl <;> cases upper <;> decide +kernel

/-- The alternate form of a shortest text is a numeral of the same number, with a point and with
the same power of ten. -/
theorem exists_alternate_numeral (hx : x.magnitude < infinity) (upper : Bool) :
    ∃ plain shown : DecimalNumeral, plain.text = x.shortest upper ∧
      shown.text = padSignificant (x.shortest upper) ∧ plain.IsFormed ∧ shown.IsFormed ∧
      shown.toRat = plain.toRat ∧ shown.fraction.isSome = true ∧
      shown.exponent = plain.exponent ∧
      (x.magnitude ≠ 0 → shown.significant = max 6 plain.significant) ∧
      (x.magnitude = 0 → shown.text = utf8 "0.00000") := by
  by_cases hzero : x.magnitude = 0
  · have hformed : DecimalNumeral.IsFormed ⟨utf8 "0", none, none⟩ :=
      ⟨by decide, List.all_eq_true.mp (by decide), by simp⟩
    refine ⟨⟨utf8 "0", none, none⟩, DecimalNumeral.filled ⟨utf8 "0", none, none⟩ 5, ?_, ?_, hformed,
      hformed.filled 5, DecimalNumeral.toRat_filled .., rfl, rfl, absurd hzero, fun _ => rfl⟩
    · rw [shortest_of_zero hzero]
      rfl
    · rw [shortest_of_zero hzero]
      decide
  · obtain ⟨_, hreads, _⟩ := shortestPlaces_spec hx
    obtain ⟨plain, htext, hformed, _, hnumber, _⟩ := exists_shortest_numeral hx upper
    have hne : value plain.digits ≠ 0 := by
      intro hnone
      have hvalue : plain.toRat = valueAt 0 := by
        rw [DecimalNumeral.toRat, hnone, Nat.cast_zero, zero_mul, valueAt_zero]
      rw [← hnumber, hvalue] at hreads
      exact hzero (hreads.unique (isNearest_valueAt (Nat.zero_le _)))
    refine ⟨plain, plain.filled (6 - plain.significant), htext, ?_, hformed, hformed.filled _,
      DecimalNumeral.toRat_filled .., rfl, rfl, fun _ => ?_, fun h => absurd h hzero⟩
    · rw [← htext, hformed.padSignificant_text hne]
    · rw [DecimalNumeral.significant_filled hne]
      omega

end Binary64

namespace Rendering

variable {spec : Spec} {x : Binary64}

theorem sign_eq_minus_iff (spec : Spec) (negative : Bool) :
    spec.sign negative = utf8 "-" ↔ negative = true := by
  unfold Spec.sign
  cases negative with
  | true => exact iff_of_true rfl rfl
  | false => cases spec.plus <;> cases spec.space <;> decide

/-- A finite number in general notation without precision and width is written as a sign and a
numeral. In the alternate form the sign is the same, the numeral stands for the same number and has
the same power of ten at its end, and there is exactly one point. Counted from the first one that
is not zero it has as many digits as before, or six if these were fewer. A zero has five zeros
behind its point. -/
theorem alternate_real_keeps_number (hx : x.magnitude < infinity)
    (hverb : spec.verb = .general ∨ spec.verb = .generalUpper) (hsharp : spec.sharp = true)
    (hprecision : spec.precision = none) (hwidth : spec.width = none) :
    ∃ plain shown : DecimalNumeral,
      value { spec with sharp := false } (.float x) =
        .ok (spec.sign x.negative ++ plain.text) ∧
      value spec (.float x) = .ok (spec.sign x.negative ++ shown.text) ∧
      (spec.sign x.negative = utf8 "-" ↔ x.negative = true) ∧
      plain.IsFormed ∧ shown.IsFormed ∧ shown.toRat = plain.toRat ∧
      (spec.sign x.negative ++ shown.text).count '.'.toUInt8 = 1 ∧
      shown.exponent = plain.exponent ∧
      (x.magnitude ≠ 0 → shown.significant = max 6 plain.significant) ∧
      (x.magnitude = 0 → shown.text = utf8 "0.00000") := by
  obtain
    ⟨plain, shown, hplain, hshown, hformed, hformed', hnumber, hpoint, hpower, hdigits, hzero⟩ :=
    Binary64.exists_alternate_numeral hx (spec.verb == .generalUpper)
  obtain ⟨haccepts, htype, htext, htext'⟩ : spec.verb.accepts .float = true ∧ spec.verb ≠ .type ∧
      realText { spec with sharp := false } x = x.shortest (spec.verb == .generalUpper) ∧
      realText spec x = padSignificant (x.shortest (spec.verb == .generalUpper)) := by
    unfold realText generalText
    rcases hverb with hverb | hverb <;> simp [hverb, hsharp, hprecision] <;> rfl
  refine ⟨plain, shown, ?_, ?_, ?_, hformed, hformed', hnumber, ?_, hpower, hdigits, hzero⟩
  · rw [@value_float_of_finite { spec with sharp := false } x hx haccepts htype hwidth, htext,
      hplain]
    rfl
  · rw [value_float_of_finite hx haccepts htype hwidth, htext', hshown]
  · exact sign_eq_minus_iff spec x.negative
  · have hall : ∀ sign ∈ [[], utf8 "-", utf8 "+", utf8 " "], sign.count '.'.toUInt8 = 0 := by decide
    rw [List.count_append, hall _ (sign_mem spec x.negative), hformed'.count_point, hpoint,
      if_pos rfl]

/-- Three digits and a power of ten become six digits and the same power. -/
theorem alternate_real_keeps_number_small :
    (⟨0xBE80C6F7A0B5ED8D⟩ : Binary64).magnitude < infinity ∧
    ∃ plain shown : DecimalNumeral,
      value { verb := .generalUpper, plus := true } (.float ⟨0xBE80C6F7A0B5ED8D⟩) =
        .ok (utf8 "-" ++ plain.text) ∧
      value { verb := .generalUpper, plus := true, sharp := true } (.float ⟨0xBE80C6F7A0B5ED8D⟩) =
        .ok (utf8 "-" ++ shown.text) ∧
      plain.text = utf8 "1.25E-07" ∧ shown.text = utf8 "1.25000E-07" ∧
      shown.toRat = plain.toRat ∧ shown.exponent = plain.exponent ∧
      shown.significant = max 6 plain.significant := by
  have hfinite : (⟨0xBE80C6F7A0B5ED8D⟩ : Binary64).magnitude < infinity := by decide
  obtain ⟨plain, shown, hplain, hshown, _, _, _, hnumber, _, hpower, hdigits, _⟩ :=
    @alternate_real_keeps_number { verb := .generalUpper, plus := true, sharp := true } _ hfinite
      (.inr rfl) rfl rfl rfl
  have htext : value { verb := .generalUpper, plus := true } (.float ⟨0xBE80C6F7A0B5ED8D⟩) =
      .ok (utf8 "-" ++ utf8 "1.25E-07") := by decide +kernel
  have htext' : value { verb := .generalUpper, plus := true, sharp := true }
      (.float ⟨0xBE80C6F7A0B5ED8D⟩) = .ok (utf8 "-" ++ utf8 "1.25000E-07") := by decide +kernel
  exact ⟨hfinite, plain, shown, hplain, hshown,
    List.append_cancel_left (Except.ok.inj (hplain.symm.trans htext)),
    List.append_cancel_left (Except.ok.inj (hshown.symm.trans htext')), hnumber, hpower,
    hdigits (by decide)⟩

end Rendering

end LeveledLog
