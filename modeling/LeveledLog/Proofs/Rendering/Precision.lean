import LeveledLog.Proofs.Runes
import LeveledLog.Rendering.Value

/-!
# Precision of text

Under the verbs that write a text, plainly or in quotes, the precision selects the longest prefix
of it that starts no more runes. The rest of the rendering sees only what is selected. No rune is
cut in two, so what is selected of well-formed text is well-formed.
-/

namespace LeveledLog.Rendering

open Bytes (IsLongestCut continuesRune runeCount)
open Utf8 (decode?)

variable {spec : Spec}

/-- The verbs that write a text itself and not its bytes in base sixteen. -/
def WritesText (v : Verb) : Prop := v = .text ∨ v = .default ∨ v = .quoted

/-- A text is written at a precision as what the precision selects is written without one. -/
theorem string_cut (hverb : WritesText spec.verb) (precision : Option Nat) (s : Bytes) :
    string { spec with precision } s =
      string { spec with precision := none } (cut precision s) := by
  rcases hverb with hverb | hverb | hverb <;>
  · simp only [string, hverb]
    rfl

/-- The width and the flags mean the same for a text at a precision as for what the precision
selects. -/
theorem exists_value_cut (hverb : WritesText spec.verb) (precision : Option Nat) (s : Bytes) :
    ∃ text, value { spec with precision } (.string s) = .ok text ∧
      value { spec with precision := none } (.string (cut precision s)) = .ok text := by
  have haccepts : spec.verb.accepts .string = true ∧ spec.verb ≠ .type := by
    rcases hverb with hverb | hverb | hverb <;> rw [hverb] <;> decide
  have hvalue (precision : Option Nat) (t : Bytes) : value { spec with precision } (.string t) =
      .ok ((plain (string { spec with precision } t)).fit { spec with precision := none }) := by
    simp only [value, Argument.kind, ofArgument, haccepts.1, haccepts.2, if_true, if_false]
    rfl
  exact ⟨_, hvalue precision s, by rw [hvalue none, string_cut hverb precision s]⟩

/-- What a number of runes selects of well-formed text are its first characters. -/
theorem cut_of_decode? {s : Bytes} {cs : List Char} (h : decode? s = some cs) (n : Nat) :
    cut (some n) s = (cs.take (min n cs.length)).flatMap String.utf8EncodeChar := by
  have htake : cs.take (min n cs.length) = cs.take n := by
    rw [List.take_eq_take_iff]
    omega
  rw [Utf8.decode?_eq_some_iff.mp h, htake]
  exact Bytes.takeRunes_flatMap n cs

/-- Under the verb for text, the default verb and the quoting verb, a text at a precision is written
as what the precision selects of it is written without one. That is the longest prefix with no more
bytes that start a rune than the precision says, and so all of the text exactly if it has no more
runes. Behind it no rune goes on. A second cut selects what the smaller precision selects. Of
well-formed text it is the encoding of the first characters, which is well-formed again. -/
theorem precision_cuts_between_runes (hverb : WritesText spec.verb) (n : Nat) (s : Bytes) :
    (∃ text, value { spec with precision := some n } (.string s) = .ok text ∧
      value { spec with precision := none } (.string (cut (some n) s)) = .ok text) ∧
    IsLongestCut n s (cut (some n) s) ∧
    (cut (some n) s = s ↔ runeCount s ≤ n) ∧
    (∀ b rest, s = cut (some n) s ++ b :: rest → continuesRune b = false) ∧
    (∀ m, cut (some m) (cut (some n) s) = cut (some (min n m)) s) ∧
    ∀ cs, decode? s = some cs →
      cut (some n) s = (cs.take (min n cs.length)).flatMap String.utf8EncodeChar ∧
      decode? (cut (some n) s) = some (cs.take (min n cs.length)) := by
  have hlongest : IsLongestCut n s (cut (some n) s) := Bytes.isLongestCut_takeRunes n s
  refine ⟨exists_value_cut hverb (some n) s, hlongest, hlongest.eq_self_iff,
    fun b rest hs => hlongest.not_continuesRune_behind hs,
    fun m => Bytes.takeRunes_takeRunes n m s, fun cs hcs => ?_⟩
  have hcut := cut_of_decode? hcs n
  exact ⟨hcut, Utf8.decode?_eq_some_iff.mpr hcut⟩

/-- Characters of one to four bytes, and a width that is filled up behind three of them. -/
theorem precision_cuts_between_runes_wide :
    WritesText .quoted ∧ decode? (utf8 "aé€😀!") = some ['a', 'é', '€', '😀', '!'] ∧
    (∃ text, value { verb := .quoted, minus := true, width := some 7, precision := some 3 }
        (.string (utf8 "aé€😀!")) = .ok text ∧ text = utf8 "\"aé€\"  ") ∧
    decode? (cut (some 3) (utf8 "aé€😀!")) = some ['a', 'é', '€'] := by
  have hverb : WritesText .quoted := .inr (.inr rfl)
  have hdecode : decode? (utf8 "aé€😀!") = some ['a', 'é', '€', '😀', '!'] :=
    Utf8.decode?_eq_some_iff.mpr (by decide)
  obtain ⟨⟨text, hvalue, hselected⟩, _, _, _, _, hcharacters⟩ := @precision_cuts_between_runes
    { verb := .quoted, minus := true, width := some 7 } hverb 3 (utf8 "aé€😀!")
  have hcut : cut (some 3) (utf8 "aé€😀!") = utf8 "aé€" := by decide
  have hwritten : value { verb := .quoted, minus := true, width := some 7 }
      (.string (utf8 "aé€")) = .ok (utf8 "\"aé€\"  ") := by decide
  rw [hcut] at hselected
  exact ⟨hverb, hdecode, ⟨text, hvalue, Except.ok.inj (hselected.symm.trans hwritten)⟩,
    (hcharacters _ hdecode).2⟩

end LeveledLog.Rendering
