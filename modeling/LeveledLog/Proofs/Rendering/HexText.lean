import LeveledLog.Proofs.Radix.Digits
import LeveledLog.Proofs.Rendering.Clean

/-!
# Texts in base sixteen

The hexadecimal verbs write the bytes of a text as pairs of digits. What stands in front of a pair
depends on two flags and on whether the pair is the first one, and a reader that passes over blanks
and prefixes gets the bytes back.
-/

namespace LeveledLog.Rendering

variable {spec : Spec} {upper : Bool}

/-- What stands in front of the byte at a position: a blank that separates it from the one before
it if the blank flag asks for that, and then the prefix in the alternate form, which only separated
bytes repeat. -/
def hexLead (spec : Spec) (position : Nat) : Bytes :=
  (if spec.space = true ∧ 0 < position then [' '.toUInt8] else []) ++
    if spec.sharp = true ∧ (spec.space = true ∨ position = 0) then
      Radix.hexadecimal.mark (spec.verb == .hexUpper)
    else []

/-- The bytes that a text in base sixteen stands for, apart from blanks and prefixes. There are none
if digits do not come in pairs or not in the given case. -/
def readHex? (upper : Bool) : Bytes → Option Bytes
  | [] => some []
  | b :: rest =>
    if b = ' '.toUInt8 then readHex? upper rest
    else match rest with
      | [] => none
      | c :: rest =>
        if [b, c] = Radix.hexadecimal.mark upper then readHex? upper rest
        else (Radix.byte? upper b c).bind fun b => (readHex? upper rest).map (b :: ·)

/-- Blanks are passed over. -/
theorem readHex?_blank (rest : Bytes) :
    readHex? upper (' '.toUInt8 :: rest) = readHex? upper rest := by
  rw [readHex?.eq_def]
  dsimp only
  rw [if_pos rfl]

/-- Prefixes are passed over. -/
theorem readHex?_mark (rest : Bytes) :
    readHex? upper (Radix.hexadecimal.mark upper ++ rest) = readHex? upper rest := by
  obtain ⟨b, c, hmark, hblank⟩ :
      ∃ b c, Radix.hexadecimal.mark upper = [b, c] ∧ b ≠ ' '.toUInt8 := by
    cases upper <;> exact ⟨_, _, rfl, by decide⟩
  rw [hmark, readHex?.eq_def]
  dsimp only [List.cons_append, List.nil_append]
  rw [if_neg hblank, if_pos hmark.symm]

/-- What stands in front of a byte is passed over. -/
theorem readHex?_lead (position : Nat) (rest : Bytes) :
    readHex? (spec.verb == .hexUpper) (hexLead spec position ++ rest) =
      readHex? (spec.verb == .hexUpper) rest := by
  rw [hexLead, List.append_assoc]
  split
  · rw [List.singleton_append, readHex?_blank]
    split
    · exact readHex?_mark rest
    · rfl
  · rw [List.nil_append]
    split
    · exact readHex?_mark rest
    · rfl

/-- A digit is no blank and no letter of a prefix. -/
theorem not_special_of_byte? {b c d : UInt8} (h : Radix.byte? upper b c = some d) :
    b ≠ ' '.toUInt8 ∧ [b, c] ≠ Radix.hexadecimal.mark upper := by
  constructor
  · rintro rfl
    cases upper <;> cases h
  · intro hmark
    cases upper <;>
    · obtain ⟨rfl, hc⟩ := List.cons.inj hmark
      obtain ⟨rfl, _⟩ := List.cons.inj hc
      cases h

/-- The digits of a byte are read as the byte. -/
theorem readHex?_hexPair (b : UInt8) (rest : Bytes) :
    readHex? upper (Numeral.hexPair upper b ++ rest) = (readHex? upper rest).map (b :: ·) := by
  have hbyte := Radix.byte?_digitByte upper b
  obtain ⟨hblank, hmark⟩ := not_special_of_byte? hbyte
  rw [readHex?.eq_def]
  dsimp only [Numeral.hexPair, List.cons_append, List.nil_append]
  rw [if_neg hblank, if_neg hmark, hbyte, Option.bind_some]

/-- Pairs of digits are read back whatever stands in front of each, as long as it is passed over. -/
theorem readHex?_pairs {lead : Nat → Bytes}
    (hlead : ∀ position rest, readHex? upper (lead position ++ rest) = readHex? upper rest)
    (s : Bytes) : readHex? upper
      (s.mapIdx fun position b => lead position ++ Numeral.hexPair upper b).flatten = some s := by
  -- The bytes behind the first one have the same leads, one position further on.
  induction s generalizing lead with
  | nil => rfl
  | cons b s ih =>
    rw [List.mapIdx_cons, List.flatten_cons, List.append_assoc, hlead, readHex?_hexPair,
      ih fun position => hlead (position + 1), Option.map_some]

/-- Behind the first byte the same stands in front of every one. -/
theorem flatten_mapIdx_const (f : UInt8 → Bytes) (s : Bytes) :
    (s.mapIdx fun _ b => f b).flatten = s.flatMap f := by
  induction s with
  | nil => rfl
  | cons b s ih => rw [List.mapIdx_cons, List.flatten_cons, ih, List.flatMap_cons]

/-- The bytes that the precision selects are written one after the other. -/
theorem hexBytes_eq (spec : Spec) (s : Bytes) : hexBytes spec s =
    ((spec.precision.elim s s.take).mapIdx fun position b =>
      hexLead spec position ++ Numeral.hexPair (spec.verb == .hexUpper) b).flatten := by
  unfold hexBytes
  dsimp only
  cases spec.precision.elim s s.take with
  | nil => rfl
  | cons b rest =>
    have hfirst : hexLead spec 0 =
        if spec.sharp then Radix.hexadecimal.mark (spec.verb == .hexUpper) else [] := by
      simp [hexLead]
    have hlater (position : Nat) : hexLead spec (position + 1) =
        if spec.space then
          ' '.toUInt8 :: if spec.sharp then Radix.hexadecimal.mark (spec.verb == .hexUpper) else []
        else [] := by
      by_cases h : spec.space = true <;> simp [hexLead, h]
    simp only [List.mapIdx_cons, List.flatten_cons, hfirst, hlater, flatten_mapIdx_const]
    rfl

/-- A hexadecimal verb writes the bytes that the precision selects of a text as pairs of digits in
its case. A blank stands between two of them exactly if the blank flag is set. In the alternate form
the prefix stands in front of every byte if blanks separate them, and otherwise in front of the
first one only. Without blanks and prefixes the bytes are read back. -/
theorem hexadecimal_text_reads_back (hverb : spec.verb = .hex ∨ spec.verb = .hexUpper)
    (hwidth : spec.width = none) (s : Bytes) :
    ∃ selected text, selected = spec.precision.elim s s.take ∧ value spec (.string s) = .ok text ∧
      text = (selected.mapIdx fun position b =>
        hexLead spec position ++ Numeral.hexPair (spec.verb == .hexUpper) b).flatten ∧
      readHex? (spec.verb == .hexUpper) text = some selected := by
  have hvalue : value spec (.string s) = .ok (hexBytes spec s) := by
    have haccepts : spec.verb.accepts .string = true := by
      rcases hverb with hverb | hverb <;> rw [hverb] <;> rfl
    have htype : spec.verb ≠ .type := by
      rcases hverb with hverb | hverb <;> rw [hverb] <;> decide
    have hstring : string spec s = hexBytes spec s := by
      rcases hverb with hverb | hverb <;> simp only [string, hverb]
    rw [value, Argument.kind, if_pos haccepts, fit_of_width_none hwidth, ofArgument, if_neg htype,
      bytes_plain, hstring]
  have htext := hexBytes_eq spec s
  refine ⟨_, hexBytes spec s, rfl, hvalue, htext, ?_⟩
  rw [htext]
  exact readHex?_pairs readHex?_lead _

/-- Both flags, and a precision that cuts inside a rune. -/
theorem hexadecimal_text_reads_back_cut :
    ∃ text, value { verb := .hexUpper, sharp := true, space := true, precision := some 2 }
        (.string (utf8 "hö")) = .ok text ∧
      text = utf8 "0X68 0XC3" ∧ readHex? true text = some [0x68, 0xC3] := by
  obtain ⟨_, text, rfl, hvalue, htext, hread⟩ := @hexadecimal_text_reads_back
    { verb := .hexUpper, sharp := true, space := true, precision := some 2 } (.inr rfl) rfl
    (utf8 "hö")
  have hselected : (utf8 "hö").take 2 = [0x68, 0xC3] := by decide
  exact ⟨text, hvalue, htext.trans (by decide), hselected ▸ hread⟩

end LeveledLog.Rendering
