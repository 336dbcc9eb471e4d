import LeveledLog.Proofs.Decimal.ReadBack
import LeveledLog.Rendering.Value

/-!
# Default texts of real numbers

A finite number under a verb that asks for no precision is written so that it reads back, bit for
bit, and with no more digits than scientific notation needs for that.
-/

namespace LeveledLog.Rendering

open Binary64 (IsNearest valueAt infinity)

variable {spec : Spec} {x : Binary64}

/-- A finite number is written by its sign and the text of its absolute value. -/
theorem real_of_finite (spec : Spec) (hx : x.magnitude < infinity) :
    real spec x = ⟨spec.sign x.negative, realText spec x, true, true⟩ := by
  have hnumber : x.isNaN = false := by
    rw [Binary64.isNaN, decide_eq_false_iff_not]
    omega
  have hfinite : x.isInfinite = false := by
    rw [Binary64.isInfinite, beq_eq_false_iff_ne]
    omega
  rw [real, hnumber, hfinite]
  rfl

theorem value_float_of_finite (hx : x.magnitude < infinity)
    (haccepts : spec.verb.accepts .float = true) (htype : spec.verb ≠ .type)
    (hwidth : spec.width = none) :
    value spec (.float x) = .ok (spec.sign x.negative ++ realText spec x) := by
  have hargument : ofArgument spec (.float x) = real spec x := by rw [ofArgument, if_neg htype]
  unfold value
  rw [Argument.kind, if_pos haccepts, fit_of_width_none hwidth, hargument, real_of_finite spec hx]
  rfl

/-- The default text of a finite number is a decimal numeral of at most seventeen significant
digits, behind a minus sign when the sign bit is set. What the numeral stands for is rounded to
the number that was written. The numeral is in exponent form exactly when the number is not zero
and the power of ten of its first digit is below `-4` or at least `6`. In either form it stands
for the same as the first of the scientific texts of one, two and more digits that is rounded to
the number that was written. -/
theorem default_real_reads_back {verb : Verb} (hx : x.magnitude < infinity)
    (hverb : verb ∈ [.general, .generalUpper, .default, .text]) :
    ∃ (shown : DecimalNumeral) (scientific : Nat → DecimalNumeral) (places : Nat),
      value { verb } (.float x) = .ok ((if x.negative then utf8 "-" else []) ++ shown.text) ∧
      shown.IsFormed ∧ shown.significant ≤ 17 ∧
      IsNearest shown.toRat x.magnitude ∧
      (shown.exponent.isSome = true ↔ valueAt x.magnitude ≠ 0 ∧
        (Int.log 10 (valueAt x.magnitude) < -4 ∨ 6 ≤ Int.log 10 (valueAt x.magnitude))) ∧
      (∀ more, (scientific more).IsFormed ∧
        value { verb := .scientific, precision := some more } (.float x) =
          .ok ((if x.negative then utf8 "-" else []) ++ (scientific more).text)) ∧
      IsNearest (scientific places).toRat x.magnitude ∧
      (∀ fewer < places, ¬ IsNearest (scientific fewer).toRat x.magnitude) ∧
      shown.toRat = (scientific places).toRat := by
  obtain ⟨_, hreads, hleast⟩ := Binary64.shortestPlaces_spec hx
  obtain ⟨shown, htext, hformed, hsignificant, hnumber, hform⟩ :=
    Binary64.exists_shortest_numeral hx (verb == .generalUpper)
  have hne (more : Nat) : (x.toDyadic.toDecimal.scientific more).digits ≠ [] := by
    have hlength := (x.toDyadic.toDecimal.scientific_digits more).1
    exact List.length_pos_iff.mp (hlength ▸ Nat.succ_pos _)
  have hsame (more : Nat) := DecimalNumeral.toRat_ofScientific false false _ (hne more)
  refine ⟨shown, fun more => .ofScientific false false (x.toDyadic.toDecimal.scientific more),
    x.shortestPlaces, ?_, hformed, hsignificant, ?_, hform, ?_, ?_, ?_, ?_⟩
  · have hreal : realText { verb } x = x.shortest (verb == .generalUpper) := by
      simp only [List.mem_cons, List.not_mem_nil, or_false] at hverb
      rcases hverb with rfl | rfl | rfl | rfl <;> rfl
    have haccepts : verb.accepts .float = true := by
      simp only [List.mem_cons, List.not_mem_nil, or_false] at hverb
      rcases hverb with rfl | rfl | rfl | rfl <;> rfl
    have htype : verb ≠ .type := by
      rintro rfl
      simp at hverb
    have hvalue := @value_float_of_finite { verb } x hx haccepts htype rfl
    rw [hvalue, hreal, htext]
    rfl
  · rwa [hnumber]
  · intro more
    refine ⟨DecimalNumeral.isFormed_ofScientific _ _ _ (hne more)
      (x.toDyadic.toDecimal.scientific_digits more).2, ?_⟩
    rw [value_float_of_finite hx rfl (show Verb.scientific ≠ .type by decide) rfl,
      DecimalNumeral.text_ofScientific]
    rfl
  · rwa [hsame]
  · intro fewer hlt
    rw [hsame]
    exact hleast fewer hlt
  · rw [hsame, hnumber]

/-- The negative number nearest to zero. -/
theorem default_real_reads_back_least :
    ∃ shown : DecimalNumeral,
      value { verb := .default } (.float ⟨0x8000000000000001⟩) = .ok (utf8 "-" ++ shown.text) ∧
      shown.text = utf8 "5e-324" ∧ IsNearest shown.toRat 1 := by
  have hfinite : (⟨0x8000000000000001⟩ : Binary64).magnitude < infinity := by decide
  have hverb : Verb.default ∈ [.general, .generalUpper, .default, .text] := by decide
  obtain ⟨shown, _, _, hvalue, _, _, hnearest, _⟩ := default_real_reads_back hfinite hverb
  have htext : value { verb := .default } (.float ⟨0x8000000000000001⟩) =
      .ok (utf8 "-" ++ utf8 "5e-324") := by decide +kernel
  have hsame := Except.ok.inj (hvalue.symm.trans htext)
  exact ⟨shown, hvalue, List.append_cancel_left hsame, hnearest⟩

end LeveledLog.Rendering
