import LeveledLog.Proofs.Radix.Digits
import LeveledLog.Proofs.Rendering.Clean
import LeveledLog.Proofs.Runes

/-!
# Quotations

A text in quotes is read back by undoing its escapes, and the quotes around it are the only ones
that are not escaped. So a quoting verb writes no two texts alike, and it writes no control byte,
except for tabs of a text that it leaves as it is between backquotes.
-/

namespace LeveledLog

open Bytes (IsClean backslash backquote doubleQuote singleQuote)

namespace Quoted

variable {quote b : UInt8} {s t : Bytes}

/-- The byte that a letter behind a backslash stands for. -/
def named? (quote letter : UInt8) : Option UInt8 :=
  if letter = 'a'.toUInt8 then some 0x07
  else if letter = 'b'.toUInt8 then some 0x08
  else if letter = 't'.toUInt8 then some 0x09
  else if letter = 'n'.toUInt8 then some 0x0A
  else if letter = 'v'.toUInt8 then some 0x0B
  else if letter = 'f'.toUInt8 then some 0x0C
  else if letter = 'r'.toUInt8 then some 0x0D
  else if letter = backslash ∨ letter = quote then some letter
  else none

/-- The text that stands between quotes. There is none if a quote is not escaped, or if a
backslash begins no escape. -/
def unescape? (quote : UInt8) : Bytes → Option Bytes
  | [] => some []
  | b :: rest =>
    if b = quote then none
    else if b ≠ backslash then (unescape? quote rest).map (b :: ·)
    else match rest with
      | [] => none
      | letter :: rest =>
        if letter ≠ 'x'.toUInt8 then
          (named? quote letter).bind fun b => (unescape? quote rest).map (b :: ·)
        else match rest with
          | high :: low :: rest =>
            (Radix.byte? false high low).bind fun b => (unescape? quote rest).map (b :: ·)
          | _ => none

/-- A byte that is neither the quote nor a backslash stands for itself. -/
theorem unescape?_plain (hquote : b ≠ quote) (hbackslash : b ≠ backslash) (rest : Bytes) :
    unescape? quote (b :: rest) = (unescape? quote rest).map (b :: ·) := by
  rw [unescape?.eq_def]
  dsimp only
  rw [if_neg hquote, if_pos hbackslash]

/-- Behind a backslash a letter stands for the byte that it names. -/
theorem unescape?_named {letter : UInt8} (hquote : backslash ≠ quote) (hx : letter ≠ 'x'.toUInt8)
    (h : named? quote letter = some b) (rest : Bytes) :
    unescape? quote (backslash :: letter :: rest) = (unescape? quote rest).map (b :: ·) := by
  rw [unescape?.eq_def]
  dsimp only
  rw [if_neg hquote, if_neg (not_not.mpr rfl), if_pos hx, h, Option.bind_some]

/-- The digits of a byte are read back as the byte. -/
theorem unescape?_hexPair (hquote : backslash ≠ quote) (b : UInt8) (rest : Bytes) :
    unescape? quote (backslash :: 'x'.toUInt8 :: (Numeral.hexPair false b ++ rest)) =
      (unescape? quote rest).map (b :: ·) := by
  rw [unescape?.eq_def]
  dsimp only [Numeral.hexPair, List.cons_append, List.nil_append]
  rw [if_neg hquote, if_neg (not_not.mpr rfl), if_neg (not_not.mpr rfl),
    Radix.byte?_digitByte false b, Option.bind_some]

/-- The letter of a control byte names it. -/
theorem named?_controlLetter {letter : Char} (h : controlLetter? b = some letter) :
    named? quote letter.toUInt8 = some b ∧ letter.toUInt8 ≠ 'x'.toUInt8 := by
  unfold controlLetter? at h
  split_ifs at h with h₁ h₂ h₃ h₄ h₅ h₆ h₇
  all_goals
    cases h
    refine ⟨?_, by decide⟩
  · rw [eq_of_beq h₁]
    rfl
  · rw [eq_of_beq h₂]
    rfl
  · rw [eq_of_beq h₃]
    rfl
  · rw [eq_of_beq h₄]
    rfl
  · rw [eq_of_beq h₅]
    rfl
  · rw [eq_of_beq h₆]
    rfl
  · rw [eq_of_beq h₇]
    rfl

/-- The written form of a byte is read back as the byte. -/
theorem unescape?_escapeByte (hquote : quote = doubleQuote ∨ quote = singleQuote) (b : UInt8)
    (rest : Bytes) : unescape? quote (escapeByte quote b ++ rest) =
      (unescape? quote rest).map (b :: ·) := by
  have hne : backslash ≠ quote := by
    rcases hquote with rfl | rfl <;> decide
  unfold escapeByte
  split
  case h_1 letter hletter =>
    obtain ⟨hnamed, hx⟩ := @named?_controlLetter quote b letter hletter
    exact unescape?_named hne hx hnamed rest
  case h_2 =>
    split
    case isTrue hself =>
      have hnamed : named? quote b = some b ∧ b ≠ 'x'.toUInt8 := by
        rcases Bool.or_eq_true_iff.mp hself with hself | hself
        · rw [eq_of_beq hself]
          exact ⟨rfl, by decide⟩
        · rw [eq_of_beq hself]
          rcases hquote with rfl | rfl <;> decide
      exact unescape?_named hne hnamed.2 hnamed.1 rest
    case isFalse hplain =>
      rw [Bool.or_eq_true_iff, beq_iff_eq, beq_iff_eq, not_or] at hplain
      split
      · exact unescape?_hexPair hne b rest
      · exact unescape?_plain hplain.2 hplain.1 rest

/-- Between quotes a text is read back. -/
theorem unescape?_flatMap (hquote : quote = doubleQuote ∨ quote = singleQuote) (s : Bytes) :
    unescape? quote (s.flatMap (escapeByte quote)) = some s := by
  induction s with
  | nil => rfl
  | cons b s ih => rw [List.flatMap_cons, unescape?_escapeByte hquote, ih, Option.map_some]

/-- The text has no backquote and of the control bytes only tabs. -/
def CanStandRaw (s : Bytes) : Prop :=
  ∀ b ∈ s, b ≠ backquote ∧ (isControl b = true → b = '\t'.toUInt8)

theorem isRaw_iff : isRaw s = true ↔ CanStandRaw s := by
  simp only [CanStandRaw, isRaw, List.all_eq_true, Bool.and_eq_true, bne_iff_ne, Bool.or_eq_true,
    Bool.not_eq_true', beq_iff_eq, ← Bool.not_eq_true, imp_iff_not_or]

end Quoted

namespace Rendering

open Quoted (isControl unescape? CanStandRaw)

variable {spec : Spec} {s t text : Bytes}

/-- How a text is written as a quotation: as it is between backquotes, if the alternate form of the
quoting verb asks for that and the text has neither a backquote nor a control byte other than a
tab, and otherwise between double quotes, from where it is read back. -/
inductive IsQuotation (spec : Spec) (s : Bytes) : Bytes → Prop
  | raw (hasked : spec.verb = .quoted ∧ spec.sharp = true) (hraw : CanStandRaw s) :
    IsQuotation spec s (backquote :: s ++ [backquote])
  | escaped {inside : Bytes} (hread : unescape? doubleQuote inside = some s)
    (hnot : ¬ ((spec.verb = .quoted ∧ spec.sharp = true) ∧ CanStandRaw s)) :
    IsQuotation spec s (doubleQuote :: inside ++ [doubleQuote])

/-- No two texts have a quotation in common. -/
theorem IsQuotation.unique (hs : IsQuotation spec s text) (ht : IsQuotation spec t text) :
    s = t := by
  have hquotes : doubleQuote ≠ backquote := by decide
  generalize htext : text = same at ht
  cases hs with
  | raw _ _ =>
    cases ht with
    | raw _ _ => exact List.append_cancel_right (List.cons.inj htext).2
    | escaped _ _ => exact absurd (List.cons.inj htext).1.symm hquotes
  | escaped hread _ =>
    cases ht with
    | raw _ _ => exact absurd (List.cons.inj htext).1 hquotes
    | escaped hread' _ =>
      rw [List.append_cancel_right (List.cons.inj htext).2] at hread
      exact Option.some.inj (hread.symm.trans hread')

/-- What a precision selects of a text. -/
def IsSelected (precision : Option Nat) (s t : Bytes) : Prop :=
  precision.elim (t = s) fun n => Bytes.IsLongestCut n s t

theorem isSelected_cut (precision : Option Nat) (s : Bytes) :
    IsSelected precision s (cut precision s) := by
  cases precision with
  | none => rfl
  | some n => exact Bytes.isLongestCut_takeRunes n s

/-- Between double quotes every text is read back, and there are no control bytes. -/
theorem literal_spec (s : Bytes) : ∃ inside,
    Quoted.literal s = doubleQuote :: inside ++ [doubleQuote] ∧
      unescape? doubleQuote inside = some s ∧ IsClean (Quoted.literal s) :=
  ⟨_, rfl, Quoted.unescape?_flatMap (.inl rfl) s, Quoted.isClean_between (by decide) s⟩

/-- A quoting verb writes the quotation of what the precision selects. -/
theorem string_quotation (hverb : spec.verb = .quoted ∨ spec.verb = .default ∧ spec.sharp = true)
    (s : Bytes) :
    IsQuotation spec (cut spec.precision s) (string spec s) ∧
      ∀ b ∈ string spec s, isControl b = true →
        b = '\t'.toUInt8 ∧ (string spec s).head? = some backquote := by
  generalize hselected : cut spec.precision s = selected
  obtain ⟨inside, hliteral, hread, hclean⟩ := literal_spec selected
  have hescaped (hnot : ¬ ((spec.verb = .quoted ∧ spec.sharp = true) ∧ CanStandRaw selected))
      (hstring : string spec s = Quoted.literal selected) :
      IsQuotation spec selected (string spec s) ∧ ∀ b ∈ string spec s, isControl b = true →
        b = '\t'.toUInt8 ∧ (string spec s).head? = some backquote := by
    refine ⟨hstring.trans hliteral ▸ .escaped hread hnot, fun b hb hcontrol => ?_⟩
    rw [hclean b (hstring ▸ hb)] at hcontrol
    cases hcontrol
  rcases hverb with hquoted | ⟨hdefault, hsharp⟩
  · by_cases hraw : (spec.sharp && Quoted.isRaw selected) = true
    · have hstring : string spec s = Quoted.raw selected := by
        simp only [string, hquoted, hselected, hraw, if_true]
      obtain ⟨hsharp, hraw⟩ := Bool.and_eq_true_iff.mp hraw
      rw [Quoted.isRaw_iff] at hraw
      rw [hstring]
      refine ⟨.raw ⟨hquoted, hsharp⟩ hraw, fun b hb hcontrol => ⟨?_, rfl⟩⟩
      have hquote : isControl backquote = false := by decide
      rcases List.mem_append.mp hb with hb | hb
      · rcases List.mem_cons.mp hb with rfl | hb
        · rw [hquote] at hcontrol
          cases hcontrol
        · exact (hraw b hb).2 hcontrol
      · rw [List.mem_singleton.mp hb, hquote] at hcontrol
        cases hcontrol
    · refine hescaped (fun h => hraw ?_) ?_
      · rw [h.1.2, Bool.true_and, Quoted.isRaw_iff]
        exact h.2
      · simp only [string, hquoted, hselected, hraw, if_false, Bool.false_eq_true]
  · refine hescaped (fun h => ?_) ?_
    · rw [hdefault] at h
      exact absurd h.1.1 (by decide)
    · simp only [string, hdefault, hselected, hsharp, if_true]

/-- The quoting verb, and the default verb in its alternate form, write a text that the precision
has cut as a quotation. It stands as it is between backquotes exactly when that is asked for and
possible, and otherwise it is read back by undoing the escapes between double quotes, none of which
is a double quote on its own. The only control bytes are tabs between backquotes. So two texts
that are not cut are not written alike. -/
theorem quotation_reads_back
    (hverb : spec.verb = .quoted ∨ spec.verb = .default ∧ spec.sharp = true)
    (hwidth : spec.width = none) (s : Bytes) :
    ∃ selected text, IsSelected spec.precision s selected ∧ value spec (.string s) = .ok text ∧
      IsQuotation spec selected text ∧
      (∀ b ∈ text, isControl b = true → b = '\t'.toUInt8 ∧ text.head? = some backquote) ∧
      (spec.precision = none → ∀ t, value spec (.string t) = .ok text → t = s) := by
  have hvalue (t : Bytes) : value spec (.string t) = .ok (string spec t) := by
    have haccepts : spec.verb.accepts .string = true := by
      rcases hverb with hverb | ⟨hverb, _⟩ <;> rw [hverb] <;> rfl
    have htype : spec.verb ≠ .type := by
      rcases hverb with hverb | ⟨hverb, _⟩ <;> rw [hverb] <;> decide
    rw [value, Argument.kind, if_pos haccepts, fit_of_width_none hwidth, ofArgument, if_neg htype,
      bytes_plain]
  obtain ⟨hquotation, hcontrols⟩ := string_quotation hverb s
  refine ⟨cut spec.precision s, string spec s, isSelected_cut _ s, hvalue s, hquotation, hcontrols,
    fun hall t ht => ?_⟩
  have hcut (t : Bytes) : cut spec.precision t = t := by
    rw [hall]
    rfl
  have hsame : string spec t = string spec s := Except.ok.inj ((hvalue t).symm.trans ht)
  have hother := (string_quotation hverb t).1
  rw [hsame, hcut] at hother
  rw [hcut] at hquotation
  exact hother.unique hquotation

/-- A zero byte in front of a digit, both bytes that are escaped by themselves, and a byte that is
no text. -/
theorem quotation_reads_back_zero :
    ∃ text, value { verb := .default, sharp := true } (.string [0x00, 0x37, 0x22, 0x5C, 0xFF]) =
        .ok text ∧
      text = utf8 "\"\\x007\\\"\\\\" ++ [0xFF, 0x22] ∧
      ∀ t, value { verb := .default, sharp := true } (.string t) = .ok text →
        t = [0x00, 0x37, 0x22, 0x5C, 0xFF] := by
  obtain ⟨_, text, _, hvalue, _, _, hunique⟩ := @quotation_reads_back
    { verb := .default, sharp := true } (.inr ⟨rfl, rfl⟩) rfl [0x00, 0x37, 0x22, 0x5C, 0xFF]
  have htext : value { verb := .default, sharp := true } (.string [0x00, 0x37, 0x22, 0x5C, 0xFF]) =
      .ok (utf8 "\"\\x007\\\"\\\\" ++ [0xFF, 0x22]) := by decide
  exact ⟨text, hvalue, Except.ok.inj (hvalue.symm.trans htext), hunique rfl⟩

end Rendering

end LeveledLog
