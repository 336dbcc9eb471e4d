import LeveledLog.Proofs.Rendering.Form
import LeveledLog.Proofs.Rendering.Quotation

/-!
# Characters

A whole number is written as a character in well-formed UTF-8. It is the character with that
number, or the replacement character if there is none, and between single quotes it is read back
from its escapes.
-/

namespace LeveledLog

open Bytes (IsClean backslash singleQuote)

namespace Quoted

variable {quote b : UInt8}

/-- The bytes that are not written as they are between quotes. -/
def IsEscaped (quote b : UInt8) : Prop := isControl b = true ∨ b = backslash ∨ b = quote

/-- Only control bytes are named by letters. -/
theorem controlLetter?_eq_none (h : ¬ isControl b = true) : controlLetter? b = none := by
  rw [isControl, Bool.or_eq_true_iff, not_or, decide_eq_true_eq] at h
  have hother (n : UInt8) (hn : n < 0x20) : (b == n) = false :=
    beq_eq_false_iff_ne.mpr fun heq => h.1 (heq ▸ hn)
  rw [controlLetter?, hother 0x07 (by decide), hother 0x08 (by decide), hother 0x09 (by decide),
    hother 0x0A (by decide), hother 0x0B (by decide), hother 0x0C (by decide),
    hother 0x0D (by decide)]
  rfl

/-- A byte that needs no escape is written as it is. -/
theorem escapeByte_of_not (h : ¬ IsEscaped quote b) : escapeByte quote b = [b] := by
  rw [IsEscaped, not_or, not_or] at h
  obtain ⟨hcontrol, hbackslash, hquote⟩ := h
  simp [escapeByte, controlLetter?_eq_none hcontrol, hbackslash, hquote, hcontrol]

/-- An escape begins with a backslash. -/
theorem head_escapeByte (h : IsEscaped quote b) : (escapeByte quote b).head? = some backslash := by
  unfold escapeByte
  split
  · rfl
  split
  · rfl
  case isFalse hplain =>
    rw [Bool.or_eq_true_iff, beq_iff_eq, beq_iff_eq] at hplain
    rw [if_pos (h.resolve_right hplain)]
    rfl

end Quoted

namespace Rendering

open Quoted (IsEscaped unescape?)
open Utf8 (IsScalar decode?)

variable {spec : Spec} {a : Argument} {c : Char}

/-- A word stands for its number if that is within the range of code points. -/
theorem toNat_codePoint (w : Word) : (codePoint w).toNat =
    if 0 ≤ w.toInt ∧ w.toInt ≤ 0x10FFFF then w.toInt.toNat else Utf8.replacement := by
  unfold codePoint
  rw [w.negative_eq]
  by_cases hnegative : w.toInt < 0
  · rw [decide_eq_true hnegative, Bool.true_or, if_pos rfl, if_neg (by omega)]
    rfl
  · have hbits := Word.toNat_bits (w := w) (by omega)
    have hrange : (0x10FFFF < w.bits) ↔ 0x10FFFF < w.toInt.toNat := by
      rw [UInt64.lt_iff_toNat_lt, hbits]
      rfl
    rw [decide_eq_false hnegative, Bool.false_or]
    by_cases hlarge : 0x10FFFF < w.toInt.toNat
    · rw [if_pos (decide_eq_true (hrange.mpr hlarge)), if_neg (by omega)]
      rfl
    · rw [if_neg (by simpa using mt hrange.mp hlarge), if_pos (by omega), UInt64.toNat_toUInt32,
        hbits]
      omega

/-- The character of a number is the one that it is the code point of, and the replacement
character if the number is no scalar value. -/
def IsCharacterOf (n : Int) (c : Char) : Prop :=
  if 0 ≤ n ∧ IsScalar n.toNat then (c.toNat : Int) = n else c.toNat = Utf8.replacement

/-- What stands for a number within the range of code points is written as its character. -/
theorem exists_character {n : Int} {cp : Nat}
    (h : cp = if 0 ≤ n ∧ n ≤ 0x10FFFF then n.toNat else Utf8.replacement) :
    ∃ c, IsCharacterOf n c ∧ Utf8.encode cp = String.utf8EncodeChar c := by
  refine ⟨_, ?_, Utf8.encode_eq cp⟩
  rw [IsCharacterOf, Utf8.toNat_ofNat (Utf8.isScalar_scalarOf cp), h]
  by_cases hrange : 0 ≤ n ∧ n ≤ 0x10FFFF
  · rw [if_pos hrange, Utf8.scalarOf]
    split
    case isTrue hscalar => rw [if_pos hscalar.2, Int.toNat_of_nonneg hscalar.1]
    case isFalse hno => rw [if_neg fun hscalar => hno ⟨hrange.1, hscalar⟩]
  · have hno : ¬ (0 ≤ n ∧ IsScalar n.toNat) := fun hscalar => by
      have hlarge := hscalar.2.1
      omega
    rw [if_neg hrange, if_neg hno]
    rfl

/-- The numbers of the characters that are not written as they are between single quotes. -/
def IsEscapedNumber (n : Nat) : Prop := n < 0x20 ∨ n = 0x7F ∨ n = 0x5C ∨ n = 0x27

theorem isEscaped_iff (b : UInt8) : IsEscaped singleQuote b ↔ IsEscapedNumber b.toNat := by
  have hbyte (n : UInt8) : b = n ↔ b.toNat = n.toNat := UInt8.toNat_inj.symm
  rw [IsEscaped, Quoted.isControl, Bool.or_eq_true_iff, decide_eq_true_eq, beq_iff_eq, or_assoc,
    UInt8.lt_iff_toNat_lt, hbyte, hbyte, hbyte]
  rfl

/-- Between single quotes a character is read back, and it has an escape if it needs one. -/
theorem quoted_character (c : Char) : ∃ inside,
    Quoted.between singleQuote (String.utf8EncodeChar c) =
        singleQuote :: inside ++ [singleQuote] ∧
      unescape? singleQuote inside = some (String.utf8EncodeChar c) ∧ IsClean inside ∧
      (IsEscapedNumber c.toNat → inside.head? = some backslash) ∧
      (¬ IsEscapedNumber c.toNat → inside = String.utf8EncodeChar c) := by
  refine ⟨_, rfl, Quoted.unescape?_flatMap (.inr rfl) _, ?_, fun hescaped => ?_, fun hplain => ?_⟩
  · exact isClean_flatMap fun b _ => Quoted.isClean_escapeByte (by decide) b
  · have hascii : c.toNat < 0x80 := by
      unfold IsEscapedNumber at hescaped
      omega
    have hbyte : (UInt8.ofNat c.toNat).toNat = c.toNat := by
      rw [UInt8.toNat_ofNat']
      omega
    rw [Utf8.utf8EncodeChar_of_lt hascii, List.flatMap_singleton]
    exact Quoted.head_escapeByte ((isEscaped_iff _).mpr (hbyte.symm ▸ hescaped))
  · have hbytes : ∀ b ∈ String.utf8EncodeChar c, Quoted.escapeByte singleQuote b = [b] := by
      intro b hb
      refine Quoted.escapeByte_of_not fun hescaped => hplain ?_
      rw [isEscaped_iff] at hescaped
      rwa [Utf8.toNat_eq_of_mem hb (by unfold IsEscapedNumber at hescaped; omega)]
    rw [List.flatMap_congr hbytes, List.flatMap_singleton']

/-- Under the character verb and the quoting verb a whole number is written as a word. -/
theorem exists_word {n : Int} (hnumber : a.number? = some n)
    (hkind : a.kind = .int ∨ a.kind = .uint ∨ a.kind = .char) : ∃ w : Word, w.toInt = n ∧
      ∀ spec : Spec, spec.verb = .char ∨ spec.verb = .quoted →
        ofArgument spec a = whole spec w := by
  have hverb (spec : Spec) (h : spec.verb = .char ∨ spec.verb = .quoted) :
      spec.verb ≠ .type ∧ ¬ spec.verb.isDefault = true := by
    rcases h with h | h <;> rw [h] <;> decide
  cases a with
  | int k =>
    obtain rfl := Option.some.inj hnumber
    exact ⟨.signed k, rfl, fun spec h => if_neg (hverb spec h).1⟩
  | uint k =>
    obtain rfl := Option.some.inj hnumber
    exact ⟨.unsigned k, rfl, fun spec h => if_neg (hverb spec h).1⟩
  | char b =>
    obtain rfl := Option.some.inj hnumber
    refine ⟨.signed (.ofNat b.toNat), Word.toInt_ofByte b, fun spec h => ?_⟩
    exact (if_neg (hverb spec h).1).trans (if_neg (hverb spec h).2)
  | bool | float | string | pointer | duration =>
    rcases hkind with hkind | hkind | hkind <;> cases hkind

/-- A number is written as the code point that it stands for, plainly or between single quotes. -/
theorem exists_codePoint (hwidth : spec.width = none) {n : Int} (hnumber : a.number? = some n)
    (hkind : a.kind = .int ∨ a.kind = .uint ∨ a.kind = .char) : ∃ cp : Nat,
      (cp = if 0 ≤ n ∧ n ≤ 0x10FFFF then n.toNat else Utf8.replacement) ∧
      (spec.verb = .char ∨ a.kind = .char ∧ (spec.verb = .default ∨ spec.verb = .text) →
        value spec a = .ok (Utf8.encode cp)) ∧
      (spec.verb = .quoted → value spec a = .ok (Quoted.rune cp)) := by
  obtain ⟨w, rfl, hword⟩ := exists_word hnumber hkind
  have haccepts (v : Verb) (hv : v = .char ∨ v = .quoted ∨ v = .default ∨ v = .text) :
      v.accepts a.kind = true := by
    rcases hkind with hkind | hkind | hkind <;> rw [hkind] <;>
      rcases hv with rfl | rfl | rfl | rfl <;> rfl
  have hwhole (hverb : spec.verb = .char ∨ spec.verb = .quoted) :
      value spec a = .ok (whole spec w).bytes := by
    rw [value, if_pos (haccepts _ (hverb.imp_right .inl)), fit_of_width_none hwidth,
      hword spec hverb]
  refine ⟨(codePoint w).toNat, toNat_codePoint w, fun hverb => ?_, fun hverb => ?_⟩
  · rcases hverb with hverb | ⟨hbyte, hverb⟩
    · rw [hwhole (.inl hverb), whole, hverb]
      exact congrArg _ (bytes_plain _)
    · obtain ⟨b, rfl⟩ : ∃ b, a = .char b := by
        cases a <;> cases hbyte
        exact ⟨_, rfl⟩
      have hn : w.toInt = b.toNat := (Option.some.inj hnumber).symm
      have hpoint : (codePoint w).toNat = b.toNat := by
        have hsmall := b.toNat_lt
        rw [toNat_codePoint, hn, if_pos (by omega)]
        rfl
      have hdefault : spec.verb ≠ .type ∧ spec.verb.isDefault = true := by
        rcases hverb with hverb | hverb <;> rw [hverb] <;> decide
      rw [value, if_pos (haccepts _ (.inr (.inr hverb))), fit_of_width_none hwidth, ofArgument,
        if_neg hdefault.1, hpoint]
      exact congrArg _ ((congrArg bytes (if_pos hdefault.2)).trans (bytes_plain _))
  · rw [hwhole (.inr hverb), whole, hverb]
    exact congrArg _ (bytes_plain _)

/-- A whole number under the character verb, and a byte under the default verbs as well, is written
as one character: the one that has its number if it is a scalar value, and the replacement
character if it is negative, a surrogate or beyond all code points. The quoting verb writes the
same character between single quotes, as it is unless it is a control character, a backslash or a
single quote, and these by an escape from which it is read back. -/
theorem character_is_one_scalar (hwidth : spec.width = none) {n : Int}
    (hnumber : a.number? = some n) (hkind : a.kind = .int ∨ a.kind = .uint ∨ a.kind = .char) :
    ∃ c, IsCharacterOf n c ∧
      (spec.verb = .char ∨ a.kind = .char ∧ (spec.verb = .default ∨ spec.verb = .text) →
        ∃ text, value spec a = .ok text ∧ text = String.utf8EncodeChar c ∧
          decode? text = some [c]) ∧
      (spec.verb = .quoted → ∃ inside text,
        value spec a = .ok (singleQuote :: inside ++ [singleQuote]) ∧
          unescape? singleQuote inside = some text ∧ decode? text = some [c] ∧ IsClean inside ∧
          (IsEscapedNumber c.toNat → inside.head? = some backslash) ∧
          (¬ IsEscapedNumber c.toNat → inside = text)) := by
  obtain ⟨cp, hcp, hplain, hquoted⟩ := exists_codePoint hwidth hnumber hkind
  obtain ⟨c, hc, hencode⟩ := exists_character hcp
  refine ⟨c, hc, fun hverb => ?_, fun hverb => ?_⟩
  · rw [hplain hverb, hencode]
    exact ⟨_, rfl, rfl, Utf8.decode?_utf8EncodeChar c⟩
  · obtain ⟨inside, hinside, hread, hclean, hescape⟩ := quoted_character c
    rw [hquoted hverb, Quoted.rune, hencode, hinside]
    exact ⟨inside, _, rfl, hread, Utf8.decode?_utf8EncodeChar c, hclean, hescape⟩

/-- A number beyond 32 bits whose low bits are those of a single quote. -/
theorem character_is_one_scalar_beyond_word :
    ∃ inside text, value { verb := .quoted, minus := true } (.uint 0x100000027) =
        .ok (singleQuote :: inside ++ [singleQuote]) ∧
      unescape? singleQuote inside = some text ∧ decode? text = some [Char.ofNat 0xFFFD] ∧
      IsClean inside := by
  obtain ⟨c, hc, _, hquoted⟩ := @character_is_one_scalar { verb := .quoted, minus := true }
    (.uint 0x100000027) rfl 0x100000027 rfl (.inr (.inl rfl))
  rw [IsCharacterOf, if_neg (by decide)] at hc
  have hreplacement : c = Char.ofNat 0xFFFD :=
    (Char.ofNat_toNat c).symm.trans (congrArg Char.ofNat hc)
  obtain ⟨inside, text, hvalue, hread, hdecode, hclean, _⟩ := hquoted rfl
  exact ⟨inside, text, hvalue, hread, hreplacement ▸ hdecode, hclean⟩

end Rendering

end LeveledLog
