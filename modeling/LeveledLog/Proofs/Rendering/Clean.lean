import LeveledLog.Level
import LeveledLog.Proofs.Numeral
import LeveledLog.Proofs.Utf8
import LeveledLog.Rendering.Value
import LeveledLog.Stamp

/-!
# Texts without control bytes

Numbers in every notation, durations, addresses, names, quoted texts and stamps are written
without any control byte, whatever the flags, the width and the precision. A control byte gets
into a rendering only out of a text that is written plainly, as the character that a number
stands for, or as a tab between backquotes.
-/

namespace LeveledLog

open Numeral
open Quoted (isControl)

/-- A text without control bytes. -/
def Bytes.IsClean (s : Bytes) : Prop := ∀ b ∈ s, isControl b = false

open Bytes (IsClean lineFeed)

instance (s : Bytes) : Decidable (IsClean s) :=
  decidable_of_iff (s.all fun b => !isControl b) (by simp [IsClean])

section Texts

variable {s t : Bytes} {b : UInt8}

@[simp] theorem isClean_nil : IsClean [] := by simp [IsClean]

@[simp] theorem isClean_cons : IsClean (b :: s) ↔ isControl b = false ∧ IsClean s :=
  List.forall_mem_cons

@[simp] theorem isClean_append : IsClean (s ++ t) ↔ IsClean s ∧ IsClean t :=
  List.forall_mem_append

theorem Bytes.IsClean.subset (h : IsClean t) (hst : s ⊆ t) : IsClean s :=
  fun b hb => h b (hst hb)

theorem isClean_flatMap {α : Type} {xs : List α} {f : α → Bytes} (h : ∀ x ∈ xs, IsClean (f x)) :
    IsClean (xs.flatMap f) := by
  intro b hb
  obtain ⟨x, hx, hb⟩ := List.mem_flatMap.mp hb
  exact h x hx b hb

/-- The byte that ends a line is a control byte. -/
theorem Bytes.IsClean.lineFeed_not_mem (h : IsClean s) : lineFeed ∉ s := by
  intro hmem
  have hcontrol : isControl lineFeed = true := by decide
  rw [h lineFeed hmem] at hcontrol
  cases hcontrol

end Texts

/-! ## Numerals -/

namespace Numeral

theorem isControl_digitByte (upper : Bool) {d : Nat} (h : d < 16) :
    isControl (digitByte upper d) = false := by
  revert h d
  cases upper <;> decide

theorem isClean_text {base : Nat} (hlow : 2 ≤ base) (hhigh : base ≤ 16) (upper : Bool) (n : Nat) :
    IsClean (text base upper n) := by
  intro b hb
  obtain ⟨d, hd, rfl⟩ := List.mem_map.mp hb
  have hbase := digits_lt hlow n d hd
  exact isControl_digitByte upper (by omega)

theorem isClean_decimal (n : Nat) : IsClean (decimal n) := isClean_text (by decide) (by decide) _ n

theorem isClean_zeros (n : Nat) : IsClean (zeros n) := by
  intro b hb
  rw [List.eq_of_mem_replicate hb]
  decide

theorem isClean_zeroPad {s : Bytes} (width : Nat) (h : IsClean s) : IsClean (zeroPad width s) :=
  isClean_append.mpr ⟨isClean_zeros _, h⟩

theorem isClean_hexPair (upper : Bool) (b : UInt8) : IsClean (hexPair upper b) := by
  have hb := b.toNat_lt
  have hhigh := isControl_digitByte upper (d := b.toNat / 16) (by omega)
  have hlow := isControl_digitByte upper (d := b.toNat % 16) (by omega)
  simp [hexPair, hhigh, hlow]

end Numeral

/-! ## Real numbers -/

theorem isClean_exponentText {mark : UInt8} (h : isControl mark = false) (exponent : Int) :
    IsClean (exponentText mark exponent) := by
  refine isClean_cons.mpr ⟨h, isClean_cons.mpr ⟨?_, isClean_zeroPad 2 (isClean_decimal _)⟩⟩
  split <;> decide

theorem dropLastZeros_subset (s : Bytes) : dropLastZeros s ⊆ s := by
  intro b hb
  have hmem := (List.dropWhile_suffix _).subset (List.mem_reverse.mp hb)
  exact List.mem_reverse.mp hmem

theorem Positional.isClean_text {p : Positional} (hwhole : IsClean p.whole)
    (hfraction : IsClean p.fraction) (alternate : Bool) : IsClean (p.text alternate) := by
  unfold Positional.text
  split
  · exact hwhole
  · exact isClean_append.mpr ⟨hwhole, isClean_cons.mpr ⟨by decide, hfraction⟩⟩

namespace Scientific

theorem isClean_text {s : Scientific} (h : IsClean s.digits) (upper alternate : Bool) :
    IsClean (s.text upper alternate) := by
  refine isClean_append.mpr ⟨?_, isClean_exponentText (by cases upper <;> decide) _⟩
  exact Positional.isClean_text (h.subset (List.take_subset ..)) (h.subset (List.drop_subset ..)) _

theorem isClean_trimmed {s : Scientific} (h : IsClean s.digits) : IsClean s.trimmed.digits := by
  refine isClean_append.mpr ⟨h.subset (List.take_subset ..), ?_⟩
  exact h.subset (List.Subset.trans (dropLastZeros_subset _) (List.drop_subset ..))

end Scientific

namespace Decimal

variable (d : Decimal) (places : Nat)

theorem isClean_scientific : IsClean (d.scientific places).digits := by
  unfold scientific
  split
  · exact isClean_zeros _
  · dsimp only
    split
    · exact isClean_append.mpr ⟨isClean_decimal _, isClean_zeros _⟩
    · split <;> exact isClean_decimal _

theorem isClean_fixed :
    IsClean (d.fixed places).whole ∧ IsClean (d.fixed places).fraction := by
  have hall (n kept : Nat) : IsClean (zeroPad (kept + 1) (decimal n)) :=
    isClean_zeroPad _ (isClean_decimal n)
  refine ⟨(hall _ _).subset (List.take_subset ..), isClean_append.mpr ⟨?_, isClean_zeros _⟩⟩
  exact (hall _ _).subset (List.drop_subset ..)

theorem isClean_general (upper alternate : Bool) :
    IsClean (d.general places upper alternate) := by
  unfold general
  dsimp only
  split
  · apply Scientific.isClean_text
    split
    · exact d.isClean_scientific _
    · exact Scientific.isClean_trimmed (d.isClean_scientific _)
  · apply Positional.isClean_text
    · split <;> exact (d.isClean_fixed _).1
    · split
      · exact (d.isClean_fixed _).2
      · exact (d.isClean_fixed _).2.subset (dropLastZeros_subset _)

end Decimal

namespace Binary64

variable (x : Binary64)

theorem isClean_shortest (upper : Bool) : IsClean (x.shortest upper) := by
  unfold shortest
  dsimp only
  split
  · exact Scientific.isClean_text (Decimal.isClean_scientific _ _) _ _
  · exact Positional.isClean_text (Decimal.isClean_fixed _ _).1 (Decimal.isClean_fixed _ _).2 _

theorem isClean_hexadecimal (places : Option Nat) (upper alternate : Bool) :
    IsClean (x.hexadecimal places upper alternate) := by
  have hdigits (n : Nat) : IsClean (Numeral.text 16 upper n) :=
    Numeral.isClean_text (by decide) (by decide) upper n
  have hsignificand : IsClean (x.hexSignificand places upper).whole ∧
      IsClean (x.hexSignificand places upper).fraction := by
    have hfraction (n kept : Nat) :
        IsClean (if kept = 0 then [] else zeroPad kept (Numeral.text 16 upper n)) := by
      split
      · exact isClean_nil
      · exact isClean_zeroPad _ (hdigits n)
    unfold hexSignificand
    cases places with
    | none => exact ⟨hdigits _, (hfraction _ _).subset (dropLastZeros_subset _)⟩
    | some p => exact ⟨hdigits _, isClean_append.mpr ⟨hfraction _ _, isClean_zeros _⟩⟩
  refine isClean_append.mpr ⟨isClean_append.mpr ⟨?_, ?_⟩, ?_⟩
  · cases upper <;> decide
  · exact Positional.isClean_text hsignificand.1 hsignificand.2 _
  · exact isClean_exponentText (by cases upper <;> decide) _

end Binary64

theorem isClean_padSignificant {s : Bytes} (h : IsClean s) : IsClean (padSignificant s) := by
  have hmantissa : IsClean (s.takeWhile fun b => !isExponentMark b) :=
    h.subset (List.takeWhile_prefix _).subset
  have hexponent : IsClean (s.dropWhile fun b => !isExponentMark b) :=
    h.subset (List.dropWhile_suffix _).subset
  unfold padSignificant
  refine isClean_append.mpr ⟨isClean_append.mpr ⟨?_, isClean_zeros _⟩, hexponent⟩
  split
  · exact hmantissa
  · exact isClean_append.mpr ⟨hmantissa, by decide⟩

/-! ## Durations and stamps -/

theorem Duration.isClean_fractionText (n power : Nat) : IsClean (fractionText n power) := by
  unfold fractionText
  extract_lets fraction
  split
  · exact isClean_decimal _
  · refine isClean_append.mpr ⟨isClean_decimal _, isClean_cons.mpr ⟨by decide, ?_⟩⟩
    exact (isClean_zeroPad _ (isClean_decimal _)).subset (dropLastZeros_subset _)

theorem Duration.isClean_magnitudeText (n : Nat) : IsClean (magnitudeText n) := by
  have hunit (n power : Nat) {unit : Bytes} (h : IsClean unit) :
      IsClean (fractionText n power ++ unit) :=
    isClean_append.mpr ⟨isClean_fractionText n power, h⟩
  have hfield (n : Nat) {unit : Bytes} (h : IsClean unit) : IsClean (decimal n ++ unit) :=
    isClean_append.mpr ⟨isClean_decimal n, h⟩
  unfold magnitudeText
  split
  · exact hfield _ (by decide)
  split
  · exact hunit _ _ (by decide)
  split
  · exact hunit _ _ (by decide)
  · dsimp only
    refine isClean_append.mpr ⟨isClean_append.mpr ⟨isClean_append.mpr ⟨?_, ?_⟩,
      isClean_fractionText _ _⟩, by decide⟩
    · split
      · exact isClean_nil
      · exact hfield _ (by decide)
    · split
      · exact isClean_nil
      · exact hfield _ (by decide)

theorem Duration.isClean_text (d : Duration) : IsClean d.text := by
  unfold Duration.text
  dsimp only
  split
  · decide
  split
  · exact isClean_cons.mpr ⟨by decide, isClean_magnitudeText _⟩
  · exact isClean_magnitudeText _

theorem Stamp.isClean_text (t : CivilTime) : IsClean (Stamp.text t) := by
  have hyear (year : Int) : IsClean (yearText year) := by
    unfold yearText
    split
    · exact isClean_cons.mpr ⟨by decide, isClean_zeroPad _ (isClean_decimal _)⟩
    · exact isClean_zeroPad _ (isClean_decimal _)
  have htwo (n : Nat) : IsClean (twoDigits n) := isClean_zeroPad _ (isClean_decimal n)
  have hslash : IsClean (utf8 "/") := by decide
  have hblank : IsClean (utf8 " ") := by decide
  have hcolon : IsClean (utf8 ":") := by decide
  simp only [text, isClean_append, hyear, htwo, hslash, hblank, hcolon, and_self]

theorem Stamp.isClean_ofInstant (now : Instant) : IsClean (Stamp.ofInstant now) := by
  have hfallback : IsClean fallback := by decide
  unfold ofInstant
  split
  · exact hfallback
  split
  · exact isClean_text _
  · exact hfallback

theorem Level.isClean_tag (l : Level) : IsClean l.tag := by
  have hname : IsClean l.name := by
    unfold Level.name
    repeat' split
    all_goals decide
  exact isClean_append.mpr ⟨isClean_append.mpr ⟨by decide, hname⟩, by decide⟩

theorem Kind.isClean_name (k : Kind) : IsClean k.name := by cases k <;> decide

/-! ## Quoted text and characters -/

namespace Quoted

theorem isControl_eq_false {b : UInt8} (hlow : 0x20 ≤ b.toNat) (hdelete : b.toNat ≠ 0x7F) :
    isControl b = false := by
  have hblank : ¬ b < 0x20 := Nat.not_lt.mpr hlow
  have hne : b ≠ 0x7F := fun h => hdelete (congrArg UInt8.toNat h)
  simp [isControl, hblank, hne]

theorem isControl_controlLetter {b : UInt8} {letter : Char} (h : controlLetter? b = some letter) :
    isControl letter.toUInt8 = false := by
  unfold controlLetter? at h
  split_ifs at h
  all_goals
    cases h
    decide

/-- Whatever a byte is, its written form between quotes has no control byte. -/
theorem isClean_escapeByte {quote : UInt8} (hquote : isControl quote = false) (b : UInt8) :
    IsClean (escapeByte quote b) := by
  have hbackslash : isControl Bytes.backslash = false := by decide
  unfold escapeByte
  split
  case h_1 letter hletter => simp [hbackslash, isControl_controlLetter hletter]
  case h_2 =>
    split
    case isTrue hself =>
      rcases Bool.or_eq_true_iff.mp hself with hself | hself
      · simp [hbackslash, eq_of_beq hself]
      · simp [hbackslash, eq_of_beq hself, hquote]
    case isFalse =>
      split
      · exact isClean_cons.mpr ⟨hbackslash, isClean_cons.mpr ⟨by decide, isClean_hexPair _ _⟩⟩
      case isFalse hplain => simpa using hplain

theorem isClean_between {quote : UInt8} (hquote : isControl quote = false) (s : Bytes) :
    IsClean (between quote s) := by
  refine isClean_append.mpr ⟨isClean_cons.mpr ⟨hquote, ?_⟩, by simpa using hquote⟩
  exact isClean_flatMap fun b _ => isClean_escapeByte hquote b

/-- Text that can stand between backquotes lies on one line. -/
theorem lineFeed_not_mem_raw {s : Bytes} (h : isRaw s = true) : lineFeed ∉ raw s := by
  intro hmem
  simp only [raw, List.mem_append, List.mem_cons] at hmem
  rcases hmem with (hquote | hmem) | hquote
  · exact absurd hquote (by decide)
  · have hall := List.all_eq_true.mp h lineFeed hmem
    exact absurd hall (by decide)
  · exact absurd hquote (by decide)

end Quoted

/-! ## Renderings -/

namespace Rendering

/-- Fitting to a width brings in blanks and zeros only. -/
theorem mem_fit {spec : Spec} {r : Rendering} {b : UInt8} (h : b ∈ r.fit spec) :
    b ∈ r.bytes ∨ b = ' '.toUInt8 ∨ b = '0'.toUInt8 := by
  have hblanks {n : Nat} (hb : b ∈ blanks n) : b = ' '.toUInt8 := List.eq_of_mem_replicate hb
  have hzeros {n : Nat} (hb : b ∈ zeros n) : b = '0'.toUInt8 := List.eq_of_mem_replicate hb
  unfold fit at h
  dsimp only at h
  split at h
  · rcases List.mem_append.mp h with h | h
    · exact .inl h
    · exact .inr (.inl (hblanks h))
  split at h
  · rcases List.mem_append.mp h with h | h
    · rcases List.mem_append.mp h with h | h
      · exact .inl (List.mem_append_left _ h)
      · exact .inr (.inr (hzeros h))
    · exact .inl (List.mem_append_right _ h)
  · rcases List.mem_append.mp h with h | h
    · exact .inr (.inl (hblanks h))
    · exact .inl h

theorem bytes_plain (s : Bytes) : (plain s).bytes = s := List.nil_append s

theorem isClean_sign (spec : Spec) (negative : Bool) : IsClean (spec.sign negative) := by
  unfold Spec.sign
  repeat' split
  all_goals decide

theorem isClean_integer (spec : Spec) (radix : Radix) (upper negative : Bool) (magnitude : Nat) :
    IsClean (integer spec radix upper negative magnitude).bytes := by
  have hmark : IsClean (radix.mark upper) := by
    cases radix <;> cases upper <;> decide
  have hleast : IsClean (leastDigits spec.precision radix upper magnitude) := by
    apply isClean_zeroPad
    split
    · exact isClean_nil
    · exact isClean_text (by cases radix <;> decide) (by cases radix <;> decide) _ _
  refine isClean_append.mpr ⟨isClean_append.mpr ⟨isClean_sign _ _, ?_⟩, ?_⟩
  · split
    · exact hmark
    · exact isClean_nil
  · change IsClean (integerDigits spec radix upper magnitude)
    unfold integerDigits
    dsimp only
    split
    · unfold leadingZero
      split
      · exact hleast
      · exact isClean_cons.mpr ⟨by decide, hleast⟩
    · exact hleast

theorem isClean_real (spec : Spec) (x : Binary64) : IsClean (real spec x).bytes := by
  have hgeneral : IsClean (generalText spec x) := by
    unfold generalText
    dsimp only
    split
    · exact Decimal.isClean_general _ _ _ _
    · split
      · exact isClean_padSignificant (x.isClean_shortest _)
      · exact x.isClean_shortest _
  have htext : IsClean (realText spec x) := by
    unfold realText
    dsimp only
    split
    · exact Scientific.isClean_text (Decimal.isClean_scientific _ _) _ _
    · exact Scientific.isClean_text (Decimal.isClean_scientific _ _) _ _
    · exact Positional.isClean_text (Decimal.isClean_fixed _ _).1 (Decimal.isClean_fixed _ _).2 _
    · exact x.isClean_hexadecimal _ _ _
    · exact x.isClean_hexadecimal _ _ _
    · exact hgeneral
  unfold real
  split
  · decide
  split
  · cases x.negative <;> decide
  · exact isClean_append.mpr ⟨isClean_sign _ _, htext⟩

theorem isClean_hexBytes (spec : Spec) (s : Bytes) : IsClean (hexBytes spec s) := by
  have hmark (upper : Bool) : IsClean (utf8 (if upper then "0X" else "0x")) := by
    cases upper <;> decide
  have hfront : IsClean
      (if spec.sharp then utf8 (if spec.verb == .hexUpper then "0X" else "0x") else []) := by
    split
    · exact hmark _
    · exact isClean_nil
  unfold hexBytes
  dsimp only
  split
  · exact isClean_nil
  · refine isClean_append.mpr ⟨isClean_append.mpr ⟨hfront, isClean_hexPair _ _⟩, ?_⟩
    refine isClean_flatMap fun b _ => isClean_append.mpr ⟨?_, isClean_hexPair _ _⟩
    split
    · exact isClean_cons.mpr ⟨by decide, hfront⟩
    · exact isClean_nil

/-- A code point is shown as a character only if it is no control byte. -/
theorem isClean_unicode (alternate : Bool) (cp : Nat) : IsClean (unicode alternate cp) := by
  have hshown (h : isShown cp = true) : IsClean (Utf8.encode cp) := by
    simp only [isShown, Bool.and_eq_true, decide_eq_true_eq, bne_iff_ne] at h
    intro b hb
    by_cases hascii : b.toNat < 0x80
    · have hcp := Utf8.eq_of_mem_encode hb hascii
      exact Quoted.isControl_eq_false (by omega) (by omega)
    · exact Quoted.isControl_eq_false (by omega) (by omega)
  refine isClean_append.mpr ⟨isClean_append.mpr ⟨by decide, ?_⟩, ?_⟩
  · exact isClean_zeroPad _ (isClean_text (by decide) (by decide) _ _)
  split
  case isTrue h =>
    have hquote : isControl Bytes.singleQuote = false := by decide
    have hblank : IsClean (utf8 " ") := by decide
    simp [hquote, hblank, hshown (Bool.and_eq_true_iff.mp h).2]
  case isFalse => exact isClean_nil

/-- Only the character verb writes a whole number with a control byte. -/
theorem isClean_whole {spec : Spec} (h : spec.verb ≠ .char) (w : Word) :
    IsClean (whole spec w).bytes := by
  unfold whole
  split
  · exact absurd ‹_› h
  · rw [bytes_plain]
    exact Quoted.isClean_between (by decide) _
  · rw [bytes_plain]
    exact isClean_unicode _ _
  · exact isClean_real _ _
  · exact isClean_real _ _
  · exact isClean_real _ _
  · exact isClean_real _ _
  · exact isClean_real _ _
  · exact isClean_integer _ _ _ _ _

end Rendering

end LeveledLog
