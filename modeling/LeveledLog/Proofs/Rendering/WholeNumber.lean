import LeveledLog.Proofs.Rendering.Padding

/-!
# Texts of whole numbers

The text of a whole number decodes to the number: without its blanks it is a sign, the prefix of
its base where that is asked for, and digits that stand for the absolute value. So no two
arguments of one kind are written alike.
-/

namespace LeveledLog

namespace Argument

variable {a b : Argument} {n : Int}

/-- The absolute value of a whole number is a word. -/
theorem natAbs_lt (h : a.number? = some n) : n.natAbs < 2 ^ 64 := by
  cases a with
  | int w =>
    obtain rfl := Option.some.inj h
    have hlow := w.le_toInt
    have hhigh := w.toInt_lt
    omega
  | uint w =>
    obtain rfl := Option.some.inj h
    exact w.toNat_lt
  | char c =>
    obtain rfl := Option.some.inj h
    have := c.toNat_lt
    omega
  | pointer p =>
    obtain rfl := Option.some.inj h
    exact p.toNat_lt
  | duration d =>
    obtain rfl := Option.some.inj h
    have hlow := d.nanoseconds.le_toInt
    have hhigh := d.nanoseconds.toInt_lt
    omega
  | bool _ | float _ | string _ => cases h

/-- An argument is known from its kind and its number. -/
theorem eq_of_number? (hkind : a.kind = b.kind) (ha : a.number? = some n)
    (hb : b.number? = some n) : a = b := by
  have hsame := ha.trans hb.symm
  cases a <;> cases b <;> cases hkind
  case int.int => exact congrArg int (Int64.toInt_inj.mp (Option.some.inj hsame))
  case uint.uint =>
    exact congrArg uint (UInt64.toNat_inj.mp (Int.ofNat_inj.mp (Option.some.inj hsame)))
  case char.char =>
    exact congrArg char (UInt8.toNat_inj.mp (Int.ofNat_inj.mp (Option.some.inj hsame)))
  case pointer.pointer =>
    exact congrArg pointer (UInt64.toNat_inj.mp (Int.ofNat_inj.mp (Option.some.inj hsame)))
  case duration.duration c d =>
    obtain ⟨c⟩ := c
    obtain ⟨d⟩ := d
    exact congrArg (duration ⟨·⟩) (Int64.toInt_inj.mp (Option.some.inj hsame))
  all_goals cases ha

end Argument

namespace Rendering

open Radix (Denotes)

variable {spec : Spec} {a : Argument} {radix : Radix}

/-- The sign in front of a whole number, a blank apart: addresses have none. -/
def wholeSign (spec : Spec) (k : Kind) (n : Int) : Bytes :=
  if n < 0 then utf8 "-" else if spec.plus = true ∧ k ≠ .pointer then utf8 "+" else []

/-- The prefix in front of a whole number. The verbs that are not for hexadecimal numbers turn the
alternate form of addresses around. -/
def wholeMark (spec : Spec) (k : Kind) (radix : Radix) : Bytes :=
  if (if k = .pointer ∧ spec.verb ≠ .hex ∧ spec.verb ≠ .hexUpper then !spec.sharp else spec.sharp)
  then radix.mark spec.verb.isUpper else []

theorem wholeMark_cases (spec : Spec) (k : Kind) (radix : Radix) :
    wholeMark spec k radix = [] ∨ wholeMark spec k radix = radix.mark spec.verb.isUpper := by
  rw [wholeMark, ite_eq_right_iff, ite_eq_left_iff]
  tauto

theorem wholeSign_cases (spec : Spec) (k : Kind) (n : Int) : wholeSign spec k n = [] ∨
    wholeSign spec k n = utf8 "-" ∨ wholeSign spec k n = utf8 "+" := by
  unfold wholeSign
  split
  · exact .inr (.inl rfl)
  split
  · exact .inr (.inr rfl)
  · exact .inl rfl

theorem wholeSign_eq_minus_iff {n : Int} {k : Kind} :
    wholeSign spec k n = utf8 "-" ↔ n < 0 := by
  unfold wholeSign
  split
  case isTrue hneg => exact iff_of_true rfl hneg
  case isFalse hneg =>
    refine iff_of_false ?_ hneg
    split <;> decide

theorem wholeSign_eq_plus_iff {n : Int} {k : Kind} :
    wholeSign spec k n = utf8 "+" ↔ 0 ≤ n ∧ spec.plus = true ∧ k ≠ .pointer := by
  unfold wholeSign
  split
  case isTrue hneg => exact iff_of_false (by decide) fun h => absurd h.1 (Int.not_le.mpr hneg)
  case isFalse hneg =>
    split
    case isTrue hplus => exact iff_of_true rfl ⟨Int.not_lt.mp hneg, hplus⟩
    case isFalse hplus => exact iff_of_false (by decide) fun h => hplus h.2

theorem wholeMark_ne_nil_iff {k : Kind} :
    wholeMark spec k radix ≠ [] ↔ (radix = .binary ∨ radix = .hexadecimal) ∧
      if k = .pointer ∧ spec.verb ≠ .hex ∧ spec.verb ≠ .hexUpper then spec.sharp = false
      else spec.sharp = true := by
  have hmark : radix.mark spec.verb.isUpper ≠ [] ↔ radix = .binary ∨ radix = .hexadecimal := by
    cases radix <;> cases spec.verb.isUpper <;> decide
  unfold wholeMark
  by_cases hturned : k = .pointer ∧ spec.verb ≠ .hex ∧ spec.verb ≠ .hexUpper
  · rw [if_pos hturned, if_pos hturned]
    cases spec.sharp <;> simp [hmark]
  · rw [if_neg hturned, if_neg hturned]
    cases spec.sharp <;> simp [hmark]

/-- Sign and prefix of a whole number, without the blank in the place of a sign. -/
theorem withoutBlanks_lead (spec : Spec) (k : Kind) (radix : Radix) (n : Int) :
    Radix.withoutBlanks (integer (wholeSpec spec k) radix spec.verb.isUpper (decide (n < 0))
        n.natAbs).lead = wholeSign spec k n ++ wholeMark spec k radix := by
  have hsign :
      Radix.withoutBlanks ((wholeSpec spec k).sign (decide (n < 0))) = wholeSign spec k n := by
    rw [withoutBlanks_sign, wholeSign]
    by_cases hpointer : k = .pointer
    · simp [wholeSpec, hpointer]
    · simp [wholeSpec, hpointer]
  have hsharp : (wholeSpec spec k).sharp =
      if k = .pointer ∧ spec.verb ≠ .hex ∧ spec.verb ≠ .hexUpper then !spec.sharp
      else spec.sharp := by
    by_cases hpointer : k = .pointer
    · simp only [wholeSpec, hpointer, true_and, if_true]
      generalize spec.verb = v
      cases v <;> rfl
    · simp only [wholeSpec, hpointer, false_and, if_false]
  have hmark : Radix.withoutBlanks (wholeMark spec k radix) = wholeMark spec k radix := by
    rcases wholeMark_cases spec k radix with hmark | hmark
    · rw [hmark]
      rfl
    · rw [hmark, withoutBlanks_mark]
  rw [integer, hsharp, Radix.withoutBlanks_append, hsign]
  exact congrArg _ hmark

/-- The text of a whole number is a sign, a prefix and digits. -/
theorem value_whole (haccepts : spec.verb.accepts a.kind = true)
    (hform : spec.verb.form a.kind = .whole radix) :
    ∃ n text digits, a.number? = some n ∧ value spec a = .ok text ∧
      Radix.withoutBlanks text = wholeSign spec a.kind n ++ wholeMark spec a.kind radix ++ digits ∧
      (∀ b ∈ digits, radix.isDigit spec.verb.isUpper b = true) ∧
      radix.valueOf spec.verb.isUpper digits = n.natAbs ∧
      spec.precision.getD 0 ≤ digits.length ∧
      (¬ (spec.precision = some 0 ∧ n = 0) → digits ≠ []) := by
  obtain ⟨n, hnumber, hn⟩ := ofArgument_whole haccepts hform
  generalize hdigits :
    integerDigits (wholeSpec spec a.kind) radix spec.verb.isUpper n.natAbs = digits
  have hall : ∀ b ∈ digits, radix.isDigit spec.verb.isUpper b = true :=
    hdigits ▸ isDigit_of_mem_integerDigits
  have hvalue : radix.valueOf spec.verb.isUpper digits = n.natAbs :=
    hdigits ▸ valueOf_integerDigits _ _
  have hleast : spec.precision.getD 0 ≤ digits.length := by
    obtain ⟨_, _, hleast⟩ :=
      integerDigits_eq (wholeSpec spec a.kind) radix spec.verb.isUpper n.natAbs
    rwa [precision_wholeSpec, hdigits] at hleast
  have hsome : ¬ (spec.precision = some 0 ∧ n = 0) → digits ≠ [] := by
    intro hsome
    rw [← hdigits]
    refine integerDigits_ne_nil _ ?_
    rwa [precision_wholeSpec, Int.natAbs_eq_zero, and_comm]
  obtain ⟨count, hfit, _⟩ := withoutBlanks_fit spec
    (integer (wholeSpec spec a.kind) radix spec.verb.isUpper (decide (n < 0)) n.natAbs)
  have hrest : (integer (wholeSpec spec a.kind) radix spec.verb.isUpper (decide (n < 0))
      n.natAbs).rest = digits := hdigits
  rw [withoutBlanks_lead, hrest,
    Radix.withoutBlanks_of_visible fun b hb => Radix.visible_of_isDigit (hall b hb), ← hn] at hfit
  refine ⟨n, _, Numeral.zeros count ++ digits, hnumber, value_eq_fit haccepts spec.zero spec.width,
    hfit, ?_, ?_, ?_, fun h => List.append_ne_nil_of_right_ne_nil _ (hsome h)⟩
  · intro b hb
    rcases List.mem_append.mp hb with hb | hb
    · exact Radix.isDigit_of_mem_zeros _ _ hb
    · exact hall b hb
  · rw [radix.valueOf_zeros_append, hvalue]
  · rw [List.length_append]
    omega

/-- Only negative numbers have a minus in their text. -/
theorem minus_not_mem {n : Int} {k : Kind} {digits : Bytes} (hn : 0 ≤ n)
    (hdigits : ∀ b ∈ digits, radix.isDigit spec.verb.isUpper b = true) :
    '-'.toUInt8 ∉ wholeSign spec k n ++ wholeMark spec k radix ++ digits := by
  have hsign : '-'.toUInt8 ∉ wholeSign spec k n := by
    rw [wholeSign, if_neg (Int.not_lt.mpr hn)]
    split <;> decide
  have hmark : '-'.toUInt8 ∉ wholeMark spec k radix := by
    rcases wholeMark_cases spec k radix with hmark | hmark
    · rw [hmark]
      exact List.not_mem_nil
    · rw [hmark]
      cases radix <;> cases spec.verb.isUpper <;> decide
  have hminus : radix.isDigit spec.verb.isUpper '-'.toUInt8 = false := by
    cases radix <;> cases spec.verb.isUpper <;> rfl
  simp only [List.mem_append, not_or]
  refine ⟨⟨hsign, hmark⟩, fun hmem => ?_⟩
  rw [hdigits _ hmem] at hminus
  cases hminus

/-- Sign, prefix and digits tell one whole number from another. -/
theorem eq_of_parts {n m : Int} {k : Kind} {digits more : Bytes}
    (h : wholeSign spec k n ++ wholeMark spec k radix ++ digits =
      wholeSign spec k m ++ wholeMark spec k radix ++ more)
    (hdigits : ∀ b ∈ digits, radix.isDigit spec.verb.isUpper b = true)
    (hmore : ∀ b ∈ more, radix.isDigit spec.verb.isUpper b = true)
    (hn : radix.valueOf spec.verb.isUpper digits = n.natAbs)
    (hm : radix.valueOf spec.verb.isUpper more = m.natAbs) : n = m := by
  have hminus {i : Int} (hi : i < 0) (rest : Bytes) :
      '-'.toUInt8 ∈ wholeSign spec k i ++ wholeMark spec k radix ++ rest := by
    rw [wholeSign, if_pos hi]
    exact List.mem_append_left _ (List.mem_append_left _ (by decide))
  have hsame : n < 0 ↔ m < 0 := by
    constructor
    · intro hneg
      by_contra hpos
      exact minus_not_mem (Int.not_lt.mp hpos) hmore (h ▸ hminus hneg digits)
    · intro hneg
      by_contra hpos
      exact minus_not_mem (Int.not_lt.mp hpos) hdigits (h ▸ hminus hneg more)
  have hsigns : wholeSign spec k n = wholeSign spec k m := by
    unfold wholeSign
    simp only [hsame]
  rw [hsigns] at h
  rw [List.append_cancel_left h, hm] at hn
  omega

/-- Without its blanks the text of a whole number is a sign, the prefix of its base and digits that
stand for its absolute value. The sign is a minus exactly in front of negative numbers and a plus
exactly where its flag asks for one, and addresses have none. The prefix is there exactly where the
alternate form asks for it, in the bases that have one. There are as many digits as the precision
asks for, and there is a digit unless a zero has precision zero. The digits of the number fit into
64 bytes, and no operation on words overflows on the way to them. So the text is read as the
number, and no other argument of the kind is written alike. -/
theorem whole_number_decodes (haccepts : spec.verb.accepts a.kind = true)
    (hform : spec.verb.form a.kind = .whole radix) :
    ∃ n text sign mark digits, a.number? = some n ∧ value spec a = .ok text ∧
      Radix.withoutBlanks text = sign ++ mark ++ digits ∧
      sign ∈ [[], utf8 "-", utf8 "+"] ∧ (sign = utf8 "-" ↔ n < 0) ∧
      (sign = utf8 "+" ↔ 0 ≤ n ∧ spec.plus = true ∧ a.kind ≠ .pointer) ∧
      mark ∈ [[], radix.mark spec.verb.isUpper] ∧
      (mark ≠ [] ↔ (radix = .binary ∨ radix = .hexadecimal) ∧
        if a.kind = .pointer ∧ spec.verb ≠ .hex ∧ spec.verb ≠ .hexUpper then spec.sharp = false
        else spec.sharp = true) ∧
      (∀ b ∈ digits, radix.isDigit spec.verb.isUpper b = true) ∧
      radix.valueOf spec.verb.isUpper digits = n.natAbs ∧
      spec.precision.getD 0 ≤ digits.length ∧
      (¬ (spec.precision = some 0 ∧ n = 0) →
        digits ≠ [] ∧ radix.read? spec.verb.isUpper text = some (n : ℚ)) ∧
      (Numeral.text radix.base spec.verb.isUpper n.natAbs).length ≤ 64 ∧
      (∀ w : Int64, w < 0 → (w + 1).toInt = w.toInt + 1 ∧ (-(w + 1)).toInt = -(w + 1).toInt ∧
        (Word.signed w).magnitude.toNat = (-(w + 1)).toInt.toNat + 1) ∧
      ∀ b : Argument, b.kind = a.kind → value spec b = .ok text → b = a := by
  obtain ⟨n, text, digits, hnumber, hvalue, htext, hdigits, hnatAbs, hleast, hsome⟩ :=
    value_whole haccepts hform
  refine ⟨n, text, wholeSign spec a.kind n, wholeMark spec a.kind radix, digits, hnumber, hvalue,
    htext, ?_, ?_, ?_, ?_, ?_, hdigits, hnatAbs, hleast, fun h => ⟨hsome h, ?_⟩, ?_, ?_, ?_⟩
  · simpa using wholeSign_cases spec a.kind n
  · exact wholeSign_eq_minus_iff
  · exact wholeSign_eq_plus_iff
  · simpa using wholeMark_cases spec a.kind radix
  · exact wholeMark_ne_nil_iff
  · have hdenotes := Denotes.of_digits (hsome h) hdigits
    rw [hdenotes.read? (htext.trans (List.append_assoc ..)) (wholeSign_cases spec a.kind n)
      (wholeMark_cases spec a.kind radix), hnatAbs]
    split
    case isTrue hminus =>
      rw [Nat.cast_natAbs, abs_of_neg (wholeSign_eq_minus_iff.mp hminus), Int.cast_neg, neg_neg]
    case isFalse hminus =>
      have hpos : 0 ≤ n := Int.not_lt.mp (mt wholeSign_eq_minus_iff.mpr hminus)
      rw [Nat.cast_natAbs, abs_of_nonneg hpos]
  · have htwo := radix.two_le_base
    refine Numeral.length_text_le htwo _ (by decide) ?_
    exact (Argument.natAbs_lt hnumber).trans_le (Nat.pow_le_pow_left htwo 64)
  · intro w hw
    refine ⟨Word.toInt_add_one hw, ?_, Word.toNat_magnitude_of_neg hw⟩
    rw [Word.toInt_neg_add_one hw, Word.toInt_add_one hw]
  · intro b hkind hb
    rw [← hkind] at haccepts hform htext
    obtain ⟨m, same, more, hother, hsame, hparts, hmore, hmnatAbs, _⟩ := value_whole haccepts hform
    obtain rfl : same = text := Except.ok.inj (hsame.symm.trans hb)
    have heq := eq_of_parts (htext.symm.trans hparts) hdigits hmore hnatAbs hmnatAbs
    exact Argument.eq_of_number? hkind (heq ▸ hother) hnumber

/-- The least word in base two. -/
theorem whole_number_decodes_least :
    ∃ text, value { verb := .binary, sharp := true, space := true } (.int (-0x8000000000000000)) =
        .ok text ∧
      Radix.binary.read? false text = some (-9223372036854775808) := by
  obtain ⟨n, text, _, _, _, hnumber, hvalue, _, _, _, _, _, _, _, _, _, hread, _⟩ :=
    @whole_number_decodes { verb := .binary, sharp := true, space := true }
      (.int (-0x8000000000000000)) .binary rfl rfl
  obtain rfl : -9223372036854775808 = n := Option.some.inj hnumber
  exact ⟨text, hvalue, (hread (by simp)).2.trans (by norm_num)⟩

end Rendering

end LeveledLog
