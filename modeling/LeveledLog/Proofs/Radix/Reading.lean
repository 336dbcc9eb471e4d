import LeveledLog.Decimal
import LeveledLog.Proofs.Radix.Digits

/-!
# Reading numbers

A number is read as a sign, the prefix of its base, digits with a point among them, and a power
that scales them: of ten in base ten, of two in base sixteen. Blanks mean nothing, and of the
rest only the digits have to be there. A text denotes a number if it is made up of these parts,
and then it is read as that number.
-/

namespace LeveledLog.Radix

open Numeral (value zeros zeroPad)

/-- The letter in front of a power, in the bases that have one. -/
def exponentMark? (upper : Bool) : Radix → Option UInt8
  | .decimal => some (if upper then 'E' else 'e').toUInt8
  | .hexadecimal => some (if upper then 'P' else 'p').toUInt8
  | .binary | .octal => none

/-- What the powers are powers of. -/
def exponentBase : Radix → ℚ
  | .hexadecimal => 2
  | _ => 10

/-- Whether a byte is the sign of a negative or of a positive number. -/
def readSign? (b : UInt8) : Option Bool :=
  if b = '-'.toUInt8 then some true else if b = '+'.toUInt8 then some false else none

/-- Read the power at the end of a number. Nothing means that it is not scaled. -/
def readPower? (radix : Radix) (upper : Bool) : Bytes → Option ℚ
  | [] => some 1
  | [_] => none
  | mark :: sign :: digits =>
    if radix.exponentMark? upper = some mark ∧ digits ≠ [] ∧ ∀ b ∈ digits, Numeral.isDigit b = true
    then (readSign? sign).map fun negative =>
      radix.exponentBase ^ if negative then -(value digits : Int) else value digits
    else none

/-- The digits behind a point, if there is one, and what follows them. -/
def splitFraction (radix : Radix) (upper : Bool) (rest : Bytes) : Bytes × Bytes :=
  if rest.head? = some '.'.toUInt8 then rest.tail.span (radix.isDigit upper) else ([], rest)

/-- Read a number that has neither sign nor prefix. -/
def readUnsigned? (radix : Radix) (upper : Bool) (s : Bytes) : Option ℚ :=
  let whole := s.takeWhile (radix.isDigit upper)
  let behind := radix.splitFraction upper (s.dropWhile (radix.isDigit upper))
  if whole = [] then none
  else (radix.readPower? upper behind.2).map fun power =>
    radix.valueOf upper (whole ++ behind.1) / radix.base ^ behind.1.length * power

/-- Read a number that has no sign. -/
def readMarked? (radix : Radix) (upper : Bool) (s : Bytes) : Option ℚ :=
  radix.readUnsigned? upper
    (if (radix.mark upper).isPrefixOf s then s.drop (radix.mark upper).length else s)

/-- The text without its blanks. -/
def withoutBlanks (s : Bytes) : Bytes := s.filter fun b => b != ' '.toUInt8

/-- Read a number. -/
def read? (radix : Radix) (upper : Bool) (s : Bytes) : Option ℚ :=
  match (withoutBlanks s).head?.bind readSign? with
  | some negative =>
    (radix.readMarked? upper (withoutBlanks s).tail).map fun r => if negative then -r else r
  | none => radix.readMarked? upper (withoutBlanks s)

/-- The texts of powers. -/
inductive IsPower (radix : Radix) (upper : Bool) : Bytes → ℚ → Prop
  | one : IsPower radix upper [] 1
  | scaled {mark : UInt8} (exponent : Int) (h : radix.exponentMark? upper = some mark) :
    IsPower radix upper (exponentText mark exponent) (radix.exponentBase ^ exponent)

/-- The texts of numbers without sign and prefix. -/
inductive Denotes (radix : Radix) (upper : Bool) : Bytes → ℚ → Prop
  | digits {p : Positional} {tail : Bytes} {power : ℚ} (alternate : Bool) (hwhole : p.whole ≠ [])
    (hdigits : ∀ b ∈ p.whole ++ p.fraction, radix.isDigit upper b = true)
    (hpower : IsPower radix upper tail power) :
    Denotes radix upper (p.text alternate ++ tail)
      (radix.valueOf upper (p.whole ++ p.fraction) / radix.base ^ p.fraction.length * power)

variable {radix : Radix} {upper : Bool} {s tail mark : Bytes} {r power : ℚ}

/-! ## The parts of a text -/

theorem isDigit_point (radix : Radix) (upper : Bool) : radix.isDigit upper '.'.toUInt8 = false := by
  cases radix <;> cases upper <;> rfl

theorem isDigit_exponentMark {b : UInt8} (h : radix.exponentMark? upper = some b) :
    radix.isDigit upper b = false ∧ b ≠ '.'.toUInt8 ∧ 0x20 < b.toNat ∧ b.toNat < 0x7F := by
  revert h
  cases radix <;> cases upper <;> rintro ⟨⟩ <;> decide

/-- A power does not begin like digits go on. -/
theorem IsPower.head (h : IsPower radix upper tail power) :
    tail.takeWhile (radix.isDigit upper) = [] ∧ tail.dropWhile (radix.isDigit upper) = tail ∧
      tail.head? ≠ some '.'.toUInt8 := by
  cases h with
  | one => exact ⟨rfl, rfl, by simp⟩
  | @scaled mark exponent hmark =>
    obtain ⟨hdigit, hpoint, _⟩ := isDigit_exponentMark hmark
    refine ⟨?_, ?_, ?_⟩
    · rw [exponentText, List.takeWhile_cons, hdigit]
      rfl
    · rw [exponentText, List.dropWhile_cons, hdigit]
      rfl
    · rw [exponentText, List.head?_cons, ne_eq, Option.some.injEq]
      exact hpoint

/-- The text of a power is read as the power. -/
theorem IsPower.readPower? (h : IsPower radix upper tail power) :
    radix.readPower? upper tail = some power := by
  cases h with
  | one => rfl
  | @scaled mark exponent hmark =>
    have hne : zeroPad 2 (Numeral.decimal exponent.natAbs) ≠ [] := by
      have := Numeral.length_decimal_pos exponent.natAbs
      rw [← List.length_pos_iff, zeroPad, List.length_append]
      omega
    have hdigits : ∀ b ∈ zeroPad 2 (Numeral.decimal exponent.natAbs), Numeral.isDigit b = true :=
      Numeral.isDigit_of_mem_zeroPad (Numeral.isDigit_of_mem_decimal _)
    have hvalue : value (zeroPad 2 (Numeral.decimal exponent.natAbs)) = exponent.natAbs := by
      rw [Numeral.value_zeroPad, Numeral.value_decimal]
    rw [exponentText, Radix.readPower?, if_pos ⟨hmark, hne, hdigits⟩, hvalue]
    by_cases hneg : exponent < 0
    · rw [if_pos hneg, readSign?, if_pos rfl, Option.map_some, if_pos rfl]
      congr 2
      omega
    · have hplus : '+'.toUInt8 ≠ '-'.toUInt8 := by decide
      rw [if_neg hneg, readSign?, if_neg hplus, if_pos rfl, Option.map_some,
        if_neg Bool.false_ne_true]
      congr 2
      omega

/-- Behind digits there is no fraction unless a point follows on them. -/
theorem splitFraction_of_head (h : s.head? ≠ some '.'.toUInt8) :
    radix.splitFraction upper s = ([], s) := if_neg h

/-- Behind a point the fraction ends where the power begins. -/
theorem IsPower.splitFraction (h : IsPower radix upper tail power)
    (hs : ∀ b ∈ s, radix.isDigit upper b = true) :
    radix.splitFraction upper ('.'.toUInt8 :: (s ++ tail)) = (s, tail) := by
  obtain ⟨htake, hdrop, _⟩ := h.head
  rw [Radix.splitFraction, List.head?_cons, if_pos rfl, List.tail_cons,
    List.span_eq_takeWhile_dropWhile, List.takeWhile_append_of_pos hs,
    List.dropWhile_append_of_pos hs, htake, hdrop, List.append_nil]

/-- Digits, a fraction and a power are read one after the other. -/
theorem readUnsigned?_parts {whole rest fraction : Bytes} (hwhole : whole ≠ [])
    (hdigits : ∀ b ∈ whole, radix.isDigit upper b = true)
    (htake : rest.takeWhile (radix.isDigit upper) = [])
    (hdrop : rest.dropWhile (radix.isDigit upper) = rest)
    (hsplit : radix.splitFraction upper rest = (fraction, tail)) :
    radix.readUnsigned? upper (whole ++ rest) = (radix.readPower? upper tail).map fun power =>
      (radix.valueOf upper (whole ++ fraction) : ℚ) / radix.base ^ fraction.length * power := by
  simp only [readUnsigned?, List.takeWhile_append_of_pos hdigits,
    List.dropWhile_append_of_pos hdigits, htake, hdrop, hsplit, List.append_nil, if_neg hwhole]

/-- What denotes a number is read as that number. -/
theorem Denotes.readUnsigned? (h : Denotes radix upper s r) :
    radix.readUnsigned? upper s = some r := by
  cases h with
  | @digits p tail power alternate hwhole hdigits hpower =>
    obtain ⟨htake, hdrop, hpoint⟩ := hpower.head
    have hwholes : ∀ b ∈ p.whole, radix.isDigit upper b = true :=
      fun b hb => hdigits b (List.mem_append_left _ hb)
    unfold Positional.text
    split
    case isTrue hbare =>
      have hnone : p.fraction = [] := List.isEmpty_iff.mp (Bool.and_eq_true_iff.mp hbare).1
      rw [readUnsigned?_parts hwhole hwholes htake hdrop (splitFraction_of_head hpoint),
        hpower.readPower?, hnone]
      rfl
    case isFalse =>
      have hfractions : ∀ b ∈ p.fraction, radix.isDigit upper b = true :=
        fun b hb => hdigits b (List.mem_append_right _ hb)
      have hstop := isDigit_point radix upper
      have hrest : p.whole ++ '.'.toUInt8 :: p.fraction ++ tail =
          p.whole ++ ('.'.toUInt8 :: (p.fraction ++ tail)) := List.append_assoc ..
      rw [hrest, readUnsigned?_parts hwhole hwholes (by simp [hstop]) (by simp [hstop])
        (hpower.splitFraction hfractions), hpower.readPower?]
      rfl

/-- Zeros in front of a number leave it the same number. -/
theorem Denotes.zeros_append (h : Denotes radix upper s r) (n : Nat) :
    Denotes radix upper (zeros n ++ s) r := by
  cases h with
  | @digits p tail power alternate hwhole hdigits hpower =>
    have hfilled := Denotes.digits (p := { p with whole := zeros n ++ p.whole }) alternate
      (List.append_ne_nil_of_right_ne_nil _ hwhole) (by
        intro b hb
        rw [List.append_assoc] at hb
        rcases List.mem_append.mp hb with hb | hb
        · exact isDigit_of_mem_zeros radix upper hb
        · exact hdigits b hb) hpower
    have htext : ({ p with whole := zeros n ++ p.whole } : Positional).text alternate ++ tail =
        zeros n ++ (p.text alternate ++ tail) := by
      unfold Positional.text
      split <;> simp only [List.append_assoc]
    have hvalue : radix.valueOf upper (zeros n ++ p.whole ++ p.fraction) =
        radix.valueOf upper (p.whole ++ p.fraction) := by
      rw [List.append_assoc, valueOf_zeros_append]
    rw [htext] at hfilled
    dsimp only at hfilled
    rwa [hvalue] at hfilled

/-- All bytes of a number are visible characters. -/
theorem Denotes.visible (h : Denotes radix upper s r) :
    ∀ b ∈ s, 0x20 < b.toNat ∧ b.toNat < 0x7F := by
  cases h with
  | @digits p tail power alternate hwhole hdigits hpower =>
    have htail : ∀ b ∈ tail, 0x20 < b.toNat ∧ b.toNat < 0x7F := by
      cases hpower with
      | one => simp
      | @scaled mark exponent hmark =>
        have hpad : ∀ b ∈ zeroPad 2 (Numeral.decimal exponent.natAbs), Numeral.isDigit b = true :=
          Numeral.isDigit_of_mem_zeroPad (Numeral.isDigit_of_mem_decimal _)
        intro b hb
        rcases List.mem_cons.mp hb with rfl | hb
        · exact (isDigit_exponentMark hmark).2.2
        rcases List.mem_cons.mp hb with rfl | hb
        · split <;> decide
        · have hdigit := hpad b hb
          rw [← isDigit_decimal false] at hdigit
          exact visible_of_isDigit hdigit
    intro b hb
    rcases List.mem_append.mp hb with hb | hb
    · unfold Positional.text at hb
      split at hb
      · exact visible_of_isDigit (hdigits b (List.mem_append_left _ hb))
      · rcases List.mem_append.mp hb with hb | hb
        · exact visible_of_isDigit (hdigits b (List.mem_append_left _ hb))
        · rcases List.mem_cons.mp hb with rfl | hb
          · decide
          · exact visible_of_isDigit (hdigits b (List.mem_append_right _ hb))
    · exact htail b hb

/-- A number begins with a digit. -/
theorem Denotes.head (h : Denotes radix upper s r) :
    ∃ b rest, s = b :: rest ∧ radix.isDigit upper b = true := by
  cases h with
  | @digits p tail power alternate hwhole hdigits hpower =>
    obtain ⟨b, more, hmore⟩ := List.exists_cons_of_ne_nil hwhole
    have hb : radix.isDigit upper b = true := hdigits b (by simp [hmore])
    unfold Positional.text
    rw [hmore]
    split
    · exact ⟨b, more ++ tail, rfl, hb⟩
    · exact ⟨b, more ++ '.'.toUInt8 :: p.fraction ++ tail, rfl, hb⟩

/-! ## Prefix, sign and blanks -/

/-- Zeros and a prefix are not read as digits, so a prefix is not read behind zeros. -/
theorem readUnsigned?_zeros_mark (n : Nat) (hmark : radix.mark upper ≠ []) (s : Bytes) :
    radix.readUnsigned? upper (zeros n ++ (radix.mark upper ++ s)) = none := by
  obtain ⟨letter, hletter, hdigit, hpoint, hexponent⟩ : ∃ letter,
      radix.mark upper = ['0'.toUInt8, letter] ∧ radix.isDigit upper letter = false ∧
        letter ≠ '.'.toUInt8 ∧ radix.exponentMark? upper ≠ some letter := by
    revert hmark
    cases radix <;> cases upper <;> intro hmark <;>
      first
      | exact absurd rfl hmark
      | exact ⟨_, rfl, rfl, by decide, by decide⟩
  have hzeros : ∀ b ∈ zeros n ++ ['0'.toUInt8], radix.isDigit upper b = true := by
    intro b hb
    rcases List.mem_append.mp hb with hb | hb
    · exact isDigit_of_mem_zeros radix upper hb
    · rw [List.mem_singleton.mp hb]
      exact radix.isDigit_zero upper
  have hsplit : zeros n ++ (radix.mark upper ++ s) =
      (zeros n ++ ['0'.toUInt8]) ++ letter :: s := by
    rw [hletter]
    simp
  have hpower : radix.readPower? upper (letter :: s) = none := by
    cases s with
    | nil => rfl
    | cons sign digits => rw [readPower?, if_neg fun h => hexponent h.1]
  rw [hsplit, readUnsigned?_parts (by simp) hzeros (by simp [hdigit]) (by simp [hdigit])
    (splitFraction_of_head (by simpa using hpoint)), hpower]
  rfl

/-- A number is read the same with and without the prefix of its base. -/
theorem Denotes.readMarked? (h : Denotes radix upper s r)
    (hmark : mark = [] ∨ mark = radix.mark upper) :
    radix.readMarked? upper (mark ++ s) = some r := by
  unfold Radix.readMarked?
  by_cases hnone : mark = []
  · rw [hnone, List.nil_append]
    split
    case isTrue hprefix =>
      obtain ⟨rest, hrest⟩ := List.isPrefixOf_iff_prefix.mp hprefix
      by_cases hempty : radix.mark upper = []
      · rw [hempty, List.length_nil, List.drop_zero]
        exact h.readUnsigned?
      · -- Behind a zero the letter of the prefix cannot be read.
        have hread := h.readUnsigned?
        have hnot := readUnsigned?_zeros_mark 0 hempty rest
        rw [zeros, List.replicate_zero, List.nil_append, hrest, hread] at hnot
        cases hnot
    case isFalse => exact h.readUnsigned?
  · obtain rfl := hmark.resolve_left hnone
    rw [if_pos (List.isPrefixOf_iff_prefix.mpr (List.prefix_append ..)), List.drop_left]
    exact h.readUnsigned?

theorem withoutBlanks_append (s t : Bytes) :
    withoutBlanks (s ++ t) = withoutBlanks s ++ withoutBlanks t := List.filter_append ..

theorem withoutBlanks_of_visible (h : ∀ b ∈ s, 0x20 < b.toNat ∧ b.toNat < 0x7F) :
    withoutBlanks s = s := by
  refine List.filter_eq_self.mpr fun b hb => ?_
  have hblank : ' '.toUInt8.toNat = 0x20 := rfl
  have := (h b hb).1
  rw [bne_iff_ne]
  rintro rfl
  omega

theorem readSign?_of_isDigit {b : UInt8} (h : radix.isDigit upper b = true) :
    readSign? b = none := by
  have hsigns : radix.isDigit upper '-'.toUInt8 = false ∧
      radix.isDigit upper '+'.toUInt8 = false := by
    cases radix <;> cases upper <;> exact ⟨rfl, rfl⟩
  rw [readSign?, if_neg, if_neg]
  · rintro rfl
    rw [hsigns.2] at h
    cases h
  · rintro rfl
    rw [hsigns.1] at h
    cases h

/-- A text that begins with a digit is read with the sign in front of it, whatever blanks there
are around it. -/
theorem read?_signed {t sign : Bytes} {b : UInt8} (ht : withoutBlanks t = sign ++ s)
    (hsign : sign = [] ∨ sign = utf8 "-" ∨ sign = utf8 "+") (hhead : s.head? = some b)
    (hb : radix.isDigit upper b = true) :
    radix.read? upper t =
      (radix.readMarked? upper s).map fun r => if sign = utf8 "-" then -r else r := by
  unfold Radix.read?
  rw [ht]
  rcases hsign with rfl | rfl | rfl
  · rw [List.nil_append, hhead, Option.bind_some, readSign?_of_isDigit hb]
    exact Option.map_id'.symm
  · have hminus : (utf8 "-" ++ s).head?.bind readSign? = some true := rfl
    have htail : (utf8 "-" ++ s).tail = s := rfl
    rw [hminus, htail]
    rfl
  · have hplus : (utf8 "+" ++ s).head?.bind readSign? = some false := rfl
    have htail : (utf8 "+" ++ s).tail = s := rfl
    rw [hplus, htail]
    rfl

/-- A prefix is a zero and a letter. -/
theorem head_mark (h : radix.mark upper ≠ []) : (radix.mark upper).head? = some '0'.toUInt8 := by
  revert h
  cases radix <;> cases upper <;> intro h <;> first | rfl | exact absurd rfl h

/-- A number with a sign or without one, with its prefix or without it, is read whatever blanks
there are around it. -/
theorem Denotes.read? {t sign : Bytes} (h : Denotes radix upper s r)
    (ht : withoutBlanks t = sign ++ (mark ++ s))
    (hsign : sign = [] ∨ sign = utf8 "-" ∨ sign = utf8 "+")
    (hmark : mark = [] ∨ mark = radix.mark upper) :
    radix.read? upper t = some (if sign = utf8 "-" then -r else r) := by
  obtain ⟨b, hhead, hb⟩ : ∃ b, (mark ++ s).head? = some b ∧ radix.isDigit upper b = true := by
    by_cases hnone : mark = []
    · obtain ⟨b, rest, rfl, hb⟩ := h.head
      exact ⟨b, by rw [hnone]; rfl, hb⟩
    · obtain rfl := hmark.resolve_left hnone
      refine ⟨'0'.toUInt8, ?_, radix.isDigit_zero upper⟩
      rw [List.head?_append, head_mark hnone]
      rfl
  rw [read?_signed ht hsign hhead hb, h.readMarked? hmark]
  rfl

/-- A prefix behind zeros is not read. -/
theorem read?_zeros_mark {t sign : Bytes} {n : Nat}
    (ht : withoutBlanks t = sign ++ (zeros (n + 1) ++ (radix.mark upper ++ s)))
    (hsign : sign = [] ∨ sign = utf8 "-" ∨ sign = utf8 "+") (hmark : radix.mark upper ≠ []) :
    radix.read? upper t = none := by
  -- The letter of the prefix is not the second byte.
  have hprefix :
      (radix.mark upper).isPrefixOf (zeros (n + 1) ++ (radix.mark upper ++ s)) = false := by
    revert hmark
    cases n <;> cases radix <;> cases upper <;> intro hmark <;> first | rfl | exact absurd rfl hmark
  rw [read?_signed ht hsign rfl (radix.isDigit_zero upper), readMarked?, hprefix,
    if_neg Bool.false_ne_true, readUnsigned?_zeros_mark (n + 1) hmark]
  rfl

end LeveledLog.Radix
