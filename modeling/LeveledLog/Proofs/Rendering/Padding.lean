import LeveledLog.Proofs.Rendering.Number

/-!
# Padding

A width brings one block of blanks or of zeros into a rendering, which makes up exactly what is
missing in runes. Zeros in a number stand behind its sign and its prefix and leave it the number
it is, except in hexadecimal notation of numbers with a point, where they get in front of the
prefix.
-/

namespace LeveledLog.Rendering

variable {spec : Spec} {a : Argument} {radix : Radix}

/-- What is fitted depends neither on the width nor on the zero flag. -/
theorem ofArgument_unfitted (spec : Spec) (a : Argument) (zero : Bool) (width : Option Nat) :
    ofArgument { spec with zero, width } a = ofArgument spec a := by
  cases a <;> rfl

theorem value_eq_fit (haccepts : spec.verb.accepts a.kind = true) (zero : Bool)
    (width : Option Nat) : value { spec with zero, width } a =
      .ok ((ofArgument spec a).fit { spec with zero, width }) := by
  rw [value, if_pos haccepts, ofArgument_unfitted]

/-! ## The width -/

/-- Whether zeros can fill up the rendering of an argument: not that of an infinity or of what is
no number, and not that of a whole number with a precision. -/
def TakesZeros (spec : Spec) (a : Argument) : Prop :=
  match spec.verb.form a.kind with
  | .text => True
  | .whole _ => spec.precision = none
  | .real _ => a.IsFinite

theorem zeroFill_ofArgument (haccepts : spec.verb.accepts a.kind = true) :
    (ofArgument spec a).zeroFill = true ↔ TakesZeros spec a := by
  unfold TakesZeros
  cases hform : spec.verb.form a.kind with
  | text =>
    obtain ⟨s, hs⟩ := ofArgument_text haccepts hform
    rw [hs]
    exact iff_of_true rfl trivial
  | whole radix =>
    obtain ⟨n, _, hn⟩ := ofArgument_whole haccepts hform
    rw [hn, integer, precision_wholeSpec]
    exact Option.isNone_iff_eq_none
  | real radix =>
    obtain ⟨x, hreal, hx⟩ := ofArgument_real haccepts hform
    rw [hx, (zeroFill_real spec x).1, decide_eq_true_eq]
    exact (Argument.isFinite_iff hreal).symm

/-- In text there is nothing that zeros would have to stay behind. -/
theorem lead_ofArgument (haccepts : spec.verb.accepts a.kind = true)
    (hform : spec.verb.form a.kind = .text) : (ofArgument spec a).lead = [] := by
  obtain ⟨s, hs⟩ := ofArgument_text haccepts hform
  rw [hs]
  rfl

/-- A width brings one block of equal bytes into the rendering without a width, as many as runes
are missing, and none if none are missing. On the right it brings in blanks at the end. Otherwise
the zero flag brings in zeros, in text at the very front, except into an infinity, into what is
no number, and into a whole number with a precision. Else blanks come to the front. -/
theorem width_inserts_padding (haccepts : spec.verb.accepts a.kind = true) :
    ∃ bare text, value { spec with width := none } a = .ok bare ∧ value spec a = .ok text ∧
      (spec.width.getD 0 ≤ Bytes.runeCount bare → text = bare) ∧
      ∀ width, spec.width = some width → Bytes.runeCount bare < width →
        ∃ front back pad, bare = front ++ back ∧
          text = front ++ List.replicate (width - Bytes.runeCount bare) pad ++ back ∧
          (spec.minus = true → pad = ' '.toUInt8 ∧ back = []) ∧
          (spec.minus = false → spec.zero = true ∧ TakesZeros spec a →
            pad = '0'.toUInt8 ∧ (spec.verb.form a.kind = .text → front = [])) ∧
          (spec.minus = false → ¬ (spec.zero = true ∧ TakesZeros spec a) →
            pad = ' '.toUInt8 ∧ front = []) := by
  have hsize := size_ofArgument haccepts
  have hzeros := zeroFill_ofArgument haccepts
  have hlead := lead_ofArgument haccepts
  have hbare : value { spec with width := none } a = .ok (ofArgument spec a).bytes := by
    rw [value_eq_fit haccepts spec.zero none, fit_of_width_none rfl]
  have htext : value spec a = .ok ((ofArgument spec a).fit spec) :=
    value_eq_fit haccepts spec.zero spec.width
  refine ⟨_, _, hbare, htext, ?_, ?_⟩
  · intro hfull
    exact fit_of_le (hsize ▸ hfull)
  · intro width hwidth hshort
    generalize ofArgument spec a = r at *
    have hmissing : r.shortfall spec.width = width - Bytes.runeCount r.bytes := by
      rw [hwidth, shortfall, Option.getD_some, hsize]
    cases hminus : spec.minus with
    | true =>
      refine ⟨r.bytes, [], ' '.toUInt8, (List.append_nil _).symm, ?_, by simp, by simp, by simp⟩
      rw [fit_of_minus hminus, hmissing, List.append_nil]
      rfl
    | false =>
      by_cases hfill : spec.zero = true ∧ TakesZeros spec a
      · refine ⟨r.lead, r.rest, '0'.toUInt8, rfl, ?_, by simp, fun _ _ => ⟨rfl, hlead⟩,
          fun _ hnot => absurd hfill hnot⟩
        rw [fit_of_zeros hminus ⟨hfill.1, hzeros.mpr hfill.2⟩, hmissing]
        rfl
      · refine ⟨[], r.bytes, ' '.toUInt8, rfl, ?_, by simp, fun _ hfilled => absurd hfilled hfill,
          fun _ _ => ⟨rfl, rfl⟩⟩
        rw [← hzeros] at hfill
        rw [fit_of_blanks hminus hfill, hmissing]
        rfl

/-- A byte that continues a rune counts for nothing, also with no rune in front of it. -/
theorem width_inserts_padding_malformed :
    value { verb := .text, zero := true, width := some 3 } (.string [0x80, 0x41]) =
      .ok (utf8 "00" ++ [0x80, 0x41]) := by
  obtain ⟨bare, text, hbare, htext, _, hblock⟩ := @width_inserts_padding
    { verb := .text, zero := true, width := some 3 } (.string [0x80, 0x41]) rfl
  obtain rfl : [0x80, 0x41] = bare := Except.ok.inj hbare
  obtain ⟨front, back, pad, hsplit, hpadded, _, hzero, _⟩ := hblock 3 rfl (by decide)
  obtain ⟨rfl, hfront⟩ := hzero rfl ⟨rfl, trivial⟩
  obtain rfl := hfront rfl
  obtain rfl : [0x80, 0x41] = back := hsplit
  rw [htext, hpadded]
  rfl

/-! ## Zeros in numbers -/

/-- The zero flag makes no difference, or it brings in as many zeros between the two parts as
there are blanks in front of them without it. -/
theorem fit_zero (spec : Spec) (r : Rendering) :
    r.fit { spec with zero := true } = r.fit { spec with zero := false } ∨
      ∃ count, r.zeroFill = true ∧
        r.fit { spec with zero := true } = r.lead ++ Numeral.zeros (count + 1) ++ r.rest ∧
        r.fit { spec with zero := false } = blanks (count + 1) ++ r.bytes := by
  cases hmissing : r.shortfall spec.width with
  | zero =>
    have hfull : spec.width.getD 0 ≤ r.size := Nat.sub_eq_zero_iff_le.mp hmissing
    have hpadded : r.fit { spec with zero := true } = r.bytes := fit_of_le hfull
    have hplain : r.fit { spec with zero := false } = r.bytes := fit_of_le hfull
    exact .inl (hpadded.trans hplain.symm)
  | succ count =>
    rcases Bool.eq_false_or_eq_true spec.minus with hminus | hminus
    · have hpadded : r.fit { spec with zero := true } = _ := fit_of_minus hminus
      have hplain : r.fit { spec with zero := false } = _ := fit_of_minus hminus
      exact .inl (hpadded.trans hplain.symm)
    have hplain : r.fit { spec with zero := false } = blanks (r.shortfall spec.width) ++ r.bytes :=
      fit_of_blanks hminus (by simp)
    cases hfill : r.zeroFill with
    | true =>
      have hpadded : r.fit { spec with zero := true } =
          r.lead ++ Numeral.zeros (r.shortfall spec.width) ++ r.rest :=
        fit_of_zeros hminus ⟨rfl, hfill⟩
      rw [hmissing] at hpadded hplain
      exact .inr ⟨count, rfl, hpadded, hplain⟩
    | false =>
      have hpadded : r.fit { spec with zero := true } =
          blanks (r.shortfall spec.width) ++ r.bytes := fit_of_blanks hminus (by simp [hfill])
      exact .inl (hpadded.trans hplain.symm)

open Radix (Denotes)

/-- Zeros behind the sign and the prefix of a number leave it the number it is. -/
theorem fit_zero_of_denotes {r : Rendering} {flags : Spec} {upper negative : Bool} {mark : Bytes}
    {number : ℚ} (spec : Spec) (hlead : r.lead = flags.sign negative ++ mark)
    (hmark : mark = [] ∨ mark = radix.mark upper) (hrest : Denotes radix upper r.rest number) :
    (r.fit { spec with zero := true } = r.fit { spec with zero := false } ∨
      ∃ sign mark digits number count,
        sign ∈ [[], utf8 "-", utf8 "+", utf8 " "] ∧ (mark = [] ∨ mark = radix.mark upper) ∧
        Denotes radix upper digits number ∧
        r.fit { spec with zero := false } = blanks count ++ (sign ++ mark ++ digits) ∧
        r.fit { spec with zero := true } = sign ++ mark ++ Numeral.zeros count ++ digits) ∧
      radix.read? upper (r.fit { spec with zero := true }) =
        radix.read? upper (r.fit { spec with zero := false }) ∧
      (radix.read? upper (r.fit { spec with zero := false })).isSome = true := by
  have hvisible :
      Radix.withoutBlanks r.lead = Radix.withoutBlanks (flags.sign negative) ++ mark := by
    have hmark : Radix.withoutBlanks mark = mark := by
      rcases hmark with rfl | rfl
      · rfl
      · exact withoutBlanks_mark radix upper
    rw [hlead, Radix.withoutBlanks_append, hmark]
  have hsign := withoutBlanks_sign_cases flags negative
  have hread (spec : Spec) := read?_fit spec hvisible hsign hmark hrest
  refine ⟨?_, by rw [hread, hread], by rw [hread, Option.isSome_some]⟩
  rcases fit_zero spec r with hsame | ⟨count, _, hpadded, hplain⟩
  · exact .inl hsame
  · rw [hlead] at hpadded
    rw [bytes, hlead] at hplain
    exact .inr ⟨_, mark, _, number, count + 1, sign_mem flags negative, hmark, hrest, hplain,
      hpadded⟩

/-- Zeros between the sign and the prefix of a number make it unreadable. -/
theorem fit_zero_of_mark {r : Rendering} {flags : Spec} {upper negative : Bool} {digits : Bytes}
    {number : ℚ} (spec : Spec) (hlead : r.lead = flags.sign negative)
    (hmark : radix.mark upper ≠ []) (hrest : r.rest = radix.mark upper ++ digits)
    (hdigits : Denotes radix upper digits number) :
    (r.fit { spec with zero := true } = r.fit { spec with zero := false } ∨
      ∃ sign mark digits number count,
        sign ∈ [[], utf8 "-", utf8 "+", utf8 " "] ∧ (mark = [] ∨ mark = radix.mark upper) ∧
        Denotes radix upper digits number ∧
        r.fit { spec with zero := false } = blanks count ++ (sign ++ mark ++ digits) ∧
        r.fit { spec with zero := true } = sign ++ Numeral.zeros count ++ mark ++ digits) ∧
      radix.read? upper (r.fit { spec with zero := true }) =
        (if r.fit { spec with zero := true } ≠ r.fit { spec with zero := false } then none
        else radix.read? upper (r.fit { spec with zero := false })) ∧
      (radix.read? upper (r.fit { spec with zero := false })).isSome = true := by
  have hsign := withoutBlanks_sign_cases flags negative
  have hvisible :
      Radix.withoutBlanks (radix.mark upper ++ digits) = radix.mark upper ++ digits := by
    rw [Radix.withoutBlanks_append, withoutBlanks_mark,
      Radix.withoutBlanks_of_visible hdigits.visible]
  have hsome : (radix.read? upper (r.fit { spec with zero := false })).isSome = true := by
    obtain ⟨count, hfit, hnone⟩ := withoutBlanks_fit { spec with zero := false } r
    rw [hnone (.inl rfl), hlead, hrest, hvisible] at hfit
    rw [hdigits.read? hfit hsign (.inr rfl), Option.isSome_some]
  rcases fit_zero spec r with hsame | ⟨count, _, hpadded, hplain⟩
  · refine ⟨.inl hsame, ?_, hsome⟩
    rw [if_neg (not_not.mpr hsame), hsame]
  · rw [hlead, hrest] at hpadded
    rw [bytes, hlead, hrest] at hplain
    have hnone : radix.read? upper (r.fit { spec with zero := true }) = none := by
      refine Radix.read?_zeros_mark (n := count) (s := digits) ?_ hsign hmark
      rw [hpadded, Radix.withoutBlanks_append, Radix.withoutBlanks_append, withoutBlanks_zeros,
        hvisible, List.append_assoc]
    refine ⟨.inr ⟨_, radix.mark upper, digits, number, count + 1, sign_mem flags negative, .inr rfl,
      hdigits, ?_, ?_⟩, ?_, hsome⟩
    · rw [hplain, List.append_assoc (flags.sign negative)]
    · rw [hpadded, List.append_assoc _ (radix.mark upper)]
    · rw [hnone]
      split
      · rfl
      case isFalse hsame =>
        rw [← not_not.mp hsame, hnone]

/-- A whole number has no digits only where its precision switches the zero flag off. -/
theorem fit_zero_of_none {n : Int} {upper : Bool} {k : Kind}
    (hprecision : spec.precision = some 0) :
    (integer (wholeSpec spec k) radix upper (decide (n < 0)) n.natAbs).fit
        { spec with zero := true } =
      (integer (wholeSpec spec k) radix upper (decide (n < 0)) n.natAbs).fit
        { spec with zero := false } := by
  refine (fit_zero spec _).resolve_right ?_
  rintro ⟨_, hfill, _⟩
  rw [integer, precision_wholeSpec, hprecision] at hfill
  cases hfill

/-- The zero flag brings zeros into a number in the place of the blanks in front of it. They stand
behind its sign and behind the prefix of its base, and the number is read as before. In
hexadecimal notation of numbers with a point they stand between the sign and the prefix, and
then no number is read. Without the flag a number is read, unless it is the zero whose precision
is zero. -/
theorem zeros_keep_number (haccepts : spec.verb.accepts a.kind = true)
    (hform : spec.verb.form a.kind = .whole radix ∨ spec.verb.form a.kind = .real radix)
    (hfinite : a.IsFinite) :
    ∃ plain padded, value { spec with zero := false } a = .ok plain ∧
      value { spec with zero := true } a = .ok padded ∧
      (padded = plain ∨ ∃ sign mark digits number count,
        sign ∈ [[], utf8 "-", utf8 "+", utf8 " "] ∧
        (mark = [] ∨ mark = radix.mark spec.verb.isUpper) ∧
        Denotes radix spec.verb.isUpper digits number ∧
        plain = blanks count ++ (sign ++ mark ++ digits) ∧
        padded = if spec.verb.form a.kind = .real .hexadecimal
          then sign ++ Numeral.zeros count ++ mark ++ digits
          else sign ++ mark ++ Numeral.zeros count ++ digits) ∧
      radix.read? spec.verb.isUpper padded =
        (if spec.verb.form a.kind = .real .hexadecimal ∧ padded ≠ plain then none
        else radix.read? spec.verb.isUpper plain) ∧
      ((radix.read? spec.verb.isUpper plain).isSome = true ∨
        spec.verb.form a.kind = .whole radix ∧ spec.precision = some 0 ∧ a.number? = some 0) := by
  refine ⟨_, _, value_eq_fit haccepts false spec.width, value_eq_fit haccepts true spec.width, ?_⟩
  rcases hform with hform | hform
  · have hnot : spec.verb.form a.kind ≠ .real .hexadecimal := by simp [hform]
    simp only [hnot, false_and, if_false]
    obtain ⟨n, hnumber, hn⟩ := ofArgument_whole haccepts hform
    rw [hn]
    by_cases hnone : n.natAbs = 0 ∧ (wholeSpec spec a.kind).precision = some 0
    · obtain ⟨hzero, hprecision⟩ := hnone
      rw [precision_wholeSpec] at hprecision
      rw [fit_zero_of_none hprecision]
      refine ⟨.inl rfl, rfl, .inr ⟨hform, hprecision, ?_⟩⟩
      rw [hnumber, Int.natAbs_eq_zero.mp hzero]
    · obtain ⟨hzeros, hread, hsome⟩ := fit_zero_of_denotes
        (r := integer (wholeSpec spec a.kind) radix spec.verb.isUpper (decide (n < 0)) n.natAbs)
        spec rfl (by split <;> simp) (denotes_integerDigits spec.verb.isUpper hnone)
      exact ⟨hzeros, hread, .inl hsome⟩
  · obtain ⟨x, hreal, hx⟩ := ofArgument_real haccepts hform
    have hfinite := (Argument.isFinite_iff hreal).mp hfinite
    obtain ⟨digits, number, htext, hdigits⟩ := denotes_realText hfinite hform
    rw [hx, real_of_finite spec hfinite, htext]
    rcases Verb.radix_of_real hform with rfl | rfl
    · have hnot : spec.verb.form a.kind ≠ .real .hexadecimal := by simp [hform]
      simp only [hnot, false_and, if_false]
      obtain ⟨hzeros, hread, hsome⟩ := fit_zero_of_denotes
        (r := ⟨spec.sign x.negative, digits, true, true⟩)
        spec (List.append_nil _).symm (.inl rfl) hdigits
      exact ⟨hzeros, hread, .inl hsome⟩
    · simp only [hform, true_and, if_true]
      have hmark : Radix.hexadecimal.mark spec.verb.isUpper ≠ [] := by
        cases spec.verb.isUpper <;> decide
      obtain ⟨hzeros, hread, hsome⟩ := fit_zero_of_mark
        (r := ⟨spec.sign x.negative, Radix.hexadecimal.mark spec.verb.isUpper ++ digits, true,
          true⟩)
        spec rfl hmark rfl hdigits
      exact ⟨hzeros, hread, .inl hsome⟩

/-- Zeros stand behind the minus sign and the prefix of a word. -/
theorem zeros_keep_number_negative :
    ∃ plain padded,
      value { verb := .hex, sharp := true, width := some 8 } (.int (-255)) = .ok plain ∧
      value { verb := .hex, sharp := true, zero := true, width := some 8 } (.int (-255)) =
        .ok padded ∧
      padded = utf8 "-0x000ff" ∧
      Radix.hexadecimal.read? false padded = Radix.hexadecimal.read? false plain := by
  obtain ⟨plain, padded, hplain, hpadded, _, hread, _⟩ := @zeros_keep_number
    { verb := .hex, sharp := true, width := some 8 } (.int (-255)) .hexadecimal rfl (.inl rfl)
    trivial
  have htext : value { verb := .hex, sharp := true, zero := true, width := some 8 } (.int (-255)) =
      .ok (utf8 "-0x000ff") := by decide +kernel
  have hform : Verb.hex.form (Argument.int (-255)).kind ≠ .real .hexadecimal := by decide
  rw [if_neg fun h => hform h.1] at hread
  exact ⟨plain, padded, hplain, hpadded, Except.ok.inj (hpadded.symm.trans htext), hread⟩

/-- Three halves in base sixteen have zeros in front of the prefix, behind which nothing is read. -/
theorem zeros_before_hexadecimal_prefix :
    value { verb := .hex, width := some 12 } (.float ⟨0x3FF8000000000000⟩) =
        .ok (utf8 "   0x1.8p+00") ∧
      value { verb := .hex, zero := true, width := some 12 } (.float ⟨0x3FF8000000000000⟩) =
        .ok (utf8 "0000x1.8p+00") ∧
      Radix.hexadecimal.read? false (utf8 "0000x1.8p+00") ≠
        Radix.hexadecimal.read? false (utf8 "   0x1.8p+00") := by
  refine ⟨by decide +kernel, by decide +kernel, fun hsame => ?_⟩
  have hplain : (Radix.hexadecimal.read? false (utf8 "   0x1.8p+00")).isSome = true := by
    decide +kernel
  have hpadded : (Radix.hexadecimal.read? false (utf8 "0000x1.8p+00")).isSome = false := by
    decide +kernel
  rw [← hsame, hpadded] at hplain
  cases hplain

end LeveledLog.Rendering
