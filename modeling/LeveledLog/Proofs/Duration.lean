import LeveledLog.Proofs.Decimal.Figures
import LeveledLog.Proofs.Rendering.Number
import LeveledLog.Proofs.Word

/-!
# Reading durations

The text of a duration is a sign and fields, each of them a decimal number of a unit. Their sum is
the duration, to the nanosecond, and reading the fields one after the other finds it again. So no
two durations have the same text.
-/

namespace LeveledLog

open Numeral

namespace TimeUnit

/-- The name of a unit behind a number. -/
def symbol : TimeUnit → Bytes
  | picosecond => utf8 "ps"
  | nanosecond => utf8 "ns"
  | microsecond => utf8 "µs"
  | millisecond => utf8 "ms"
  | second => utf8 "s"
  | minute => utf8 "m"
  | hour => utf8 "h"

/-- The length of a unit in nanoseconds. -/
def nanoseconds (u : TimeUnit) : ℚ := u.picoseconds / 1000

/-- The unit that a name stands for. -/
def ofSymbol? (s : Bytes) : Option TimeUnit :=
  [picosecond, nanosecond, microsecond, millisecond, second, minute, hour].find? fun u =>
    u.symbol == s

theorem nanoseconds_nanosecond : nanosecond.nanoseconds = 1 := by
  norm_num [nanoseconds, picoseconds]

theorem nanoseconds_microsecond : microsecond.nanoseconds = 10 ^ 3 := by
  norm_num [nanoseconds, picoseconds]

theorem nanoseconds_millisecond : millisecond.nanoseconds = 10 ^ 6 := by
  norm_num [nanoseconds, picoseconds]

theorem nanoseconds_second : second.nanoseconds = 10 ^ 9 := by
  norm_num [nanoseconds, picoseconds]

theorem nanoseconds_minute : minute.nanoseconds = (60 * Duration.nanosecondsPerSecond : Nat) := by
  norm_num [nanoseconds, picoseconds, Duration.nanosecondsPerSecond]

theorem nanoseconds_hour : hour.nanoseconds = (3600 * Duration.nanosecondsPerSecond : Nat) := by
  norm_num [nanoseconds, picoseconds, Duration.nanosecondsPerSecond]

theorem ofSymbol?_symbol (u : TimeUnit) : ofSymbol? u.symbol = some u := by cases u <;> decide

end TimeUnit

namespace Duration

/-- A number of units. -/
structure Field where
  count : Positional
  unit : TimeUnit
  deriving DecidableEq, Repr

namespace Field

/-- The number and the name of the unit. -/
def text (f : Field) : Bytes := f.count.text false ++ f.unit.symbol

/-- What the field stands for. -/
def nanoseconds (f : Field) : ℚ := f.count.toRat * f.unit.nanoseconds

/-- The number has digits before the point, digits alone, and no zero at the end of its
fraction. -/
structure IsFormed (f : Field) : Prop where
  whole : f.count.whole ≠ []
  isDigit : ∀ b ∈ f.count.whole ++ f.count.fraction, isDigit b = true
  last : f.count.fraction.getLast? ≠ some '0'.toUInt8

end Field

/-- The text of fields in a row. -/
def textOf (fields : List Field) : Bytes := fields.flatMap Field.text

/-- What fields stand for together. -/
def total (fields : List Field) : ℚ := (fields.map Field.nanoseconds).sum

/-- Fields are the breakdown of a number of nanoseconds: one field of a unit below the second, or
seconds with the minutes and hours in front of them that the number has. -/
structure IsBreakdown (n : Nat) (fields : List Field) : Prop where
  formed : ∀ f ∈ fields, f.IsFormed
  units : fields.map Field.unit ∈ ([[.nanosecond], [.microsecond], [.millisecond], [.second],
    [.minute, .second], [.hour, .minute, .second]] : List (List TimeUnit))
  whole : ∀ f ∈ fields, f.unit = .nanosecond ∨ f.unit = .minute ∨ f.unit = .hour →
    f.count.fraction = []
  minute : .minute ∈ fields.map Field.unit ↔ 60 * nanosecondsPerSecond ≤ n
  hour : .hour ∈ fields.map Field.unit ↔ 3600 * nanosecondsPerSecond ≤ n
  below : ∀ f ∈ fields.tail, f.count.toRat < 60
  total : total fields = n

/-! ## Reading fields -/

/-- Whether a byte belongs to the number of a field. -/
def isCount (b : UInt8) : Bool := isDigit b || b == '.'.toUInt8

/-- The text behind the first field. -/
def behindField (s : Bytes) : Bytes := (s.dropWhile isCount).dropWhile fun b => !isCount b

/-- Behind the first field there is less to read. -/
theorem length_behindField_lt {s : Bytes} (h : s ≠ []) : (behindField s).length < s.length := by
  obtain ⟨b, more, rfl⟩ := List.exists_cons_of_ne_nil h
  have hdrop (p : UInt8 → Bool) (t : Bytes) : (t.dropWhile p).length ≤ t.length :=
    (List.dropWhile_suffix p).length_le
  unfold behindField
  cases hb : isCount b with
  | true =>
    rw [List.dropWhile_cons_of_pos hb]
    exact Nat.lt_succ_of_le ((hdrop _ _).trans (hdrop _ _))
  | false =>
    rw [List.dropWhile_cons_of_neg (by simp [hb]), List.dropWhile_cons_of_pos (by simp [hb])]
    exact Nat.lt_succ_of_le (hdrop _ _)

/-- Read fields one after the other and add them up. -/
def readFields? (s : Bytes) : Option ℚ :=
  if s = [] then some 0
  else
    (Radix.decimal.readUnsigned? false (s.takeWhile isCount)).bind fun number =>
      (TimeUnit.ofSymbol? ((s.dropWhile isCount).takeWhile fun b => !isCount b)).bind fun unit =>
        (readFields? (behindField s)).map fun more => number * unit.nanoseconds + more
termination_by s.length
decreasing_by exact length_behindField_lt ‹_›

/-- Read a duration as a sign and fields. -/
def read? (s : Bytes) : Option ℚ :=
  if s.head? = some '-'.toUInt8 then (readFields? s.tail).map (- ·) else readFields? s

variable {n : Nat} {f : Field} {fields : List Field} {rest : Bytes}

/-- The bytes of a number belong to it. -/
theorem Field.IsFormed.isCount (h : f.IsFormed) : ∀ b ∈ f.count.text false, isCount b = true := by
  have hdigit : ∀ b ∈ f.count.whole ++ f.count.fraction, Duration.isCount b = true := by
    intro b hb
    rw [Duration.isCount, h.isDigit b hb, Bool.true_or]
  intro b hb
  unfold Positional.text at hb
  split at hb
  · exact hdigit b (List.mem_append_left _ hb)
  · rcases List.mem_append.mp hb with hb | hb
    · exact hdigit b (List.mem_append_left _ hb)
    rcases List.mem_cons.mp hb with rfl | hb
    · rfl
    · exact hdigit b (List.mem_append_right _ hb)

theorem Field.IsFormed.text_ne_nil (h : f.IsFormed) : f.count.text false ≠ [] := by
  unfold Positional.text
  split
  · exact h.whole
  · exact List.append_ne_nil_of_left_ne_nil h.whole _

/-- No byte of the name of a unit belongs to a number. -/
theorem not_isCount_of_mem_symbol (u : TimeUnit) : ∀ b ∈ u.symbol, isCount b = false := by
  have hall : (u.symbol.all fun b => !isCount b) = true := by cases u <;> decide
  intro b hb
  simpa using List.all_eq_true.mp hall b hb

/-- Where no byte of a kind stands in front, a run of that kind is empty. -/
theorem takeWhile_of_head {p : UInt8 → Bool} {s : Bytes} (h : ∀ b ∈ s.head?, p b = false) :
    s.takeWhile p = [] ∧ s.dropWhile p = s := by
  cases s with
  | nil => exact ⟨rfl, rfl⟩
  | cons b s =>
    have hb : ¬ p b = true := by simp [h b rfl]
    exact ⟨List.takeWhile_cons_of_neg hb, List.dropWhile_cons_of_neg hb⟩

/-- A field is read and added to what the fields behind it come to. -/
theorem readFields?_append (h : f.IsFormed) (hrest : ∀ b ∈ rest.head?, isCount b = true) :
    readFields? (f.text ++ rest) = (readFields? rest).map fun more => f.nanoseconds + more := by
  have hcount := h.isCount
  have hsymbol := not_isCount_of_mem_symbol f.unit
  have hstop : (f.unit.symbol ++ rest).takeWhile isCount = [] ∧
      (f.unit.symbol ++ rest).dropWhile isCount = f.unit.symbol ++ rest := by
    refine takeWhile_of_head fun b hb => hsymbol b ?_
    have hne : f.unit.symbol ≠ [] := by cases f.unit <;> decide
    rw [List.head?_append_of_ne_nil _ hne] at hb
    exact List.mem_of_mem_head? hb
  have hnext : rest.takeWhile (fun b => !isCount b) = [] ∧
      rest.dropWhile (fun b => !isCount b) = rest :=
    takeWhile_of_head fun b hb => by simp [hrest b hb]
  have hsymbol' : ∀ b ∈ f.unit.symbol, (!isCount b) = true := fun b hb => by simp [hsymbol b hb]
  have hfront : (f.text ++ rest).takeWhile isCount = f.count.text false := by
    rw [Field.text, List.append_assoc, List.takeWhile_append_of_pos hcount, hstop.1,
      List.append_nil]
  have hbehind : (f.text ++ rest).dropWhile isCount = f.unit.symbol ++ rest := by
    rw [Field.text, List.append_assoc, List.dropWhile_append_of_pos hcount, hstop.2]
  have hne : f.text ++ rest ≠ [] :=
    List.append_ne_nil_of_left_ne_nil (List.append_ne_nil_of_left_ne_nil h.text_ne_nil _) _
  have hnumber := (@Radix.Denotes.positional false _ false h.whole h.isDigit).readUnsigned?
  rw [readFields?, if_neg hne, behindField, hfront, hbehind, hnumber, Option.bind_some,
    List.takeWhile_append_of_pos hsymbol', List.dropWhile_append_of_pos hsymbol', hnext.1, hnext.2,
    List.append_nil, TimeUnit.ofSymbol?_symbol, Option.bind_some]
  rfl

/-- Fields are read as what they stand for together. -/
theorem readFields?_textOf (h : ∀ f ∈ fields, f.IsFormed) :
    readFields? (textOf fields) = some (total fields) := by
  induction fields with
  | nil =>
    rw [textOf, List.flatMap_nil, readFields?, if_pos rfl]
    rfl
  | cons f fields ih =>
    have hfields : ∀ g ∈ fields, g.IsFormed := fun g hg => h g (List.mem_cons_of_mem _ hg)
    have hhead : ∀ b ∈ (textOf fields).head?, isCount b = true := by
      intro b hb
      cases fields with
      | nil => cases hb
      | cons g fields =>
        have hg := hfields g (List.mem_cons_self ..)
        rw [textOf, List.flatMap_cons, Field.text, List.append_assoc,
          List.head?_append_of_ne_nil _ hg.text_ne_nil] at hb
        exact hg.isCount b (List.mem_of_mem_head? hb)
    have hsplit : textOf (f :: fields) = f.text ++ textOf fields := List.flatMap_cons ..
    have htotal : total (f :: fields) = f.nanoseconds + total fields := List.sum_cons ..
    rw [hsplit, readFields?_append (h f (List.mem_cons_self ..)) hhead, ih hfields, Option.map_some,
      htotal]

/-! ## Fields of a duration -/

/-- The quotient by a power of ten, without zeros at the end of its fraction. -/
def quotient (n power : Nat) : Positional where
  whole := decimal (n / 10 ^ power)
  fraction := dropLastZeros (zeroPad power (decimal (n % 10 ^ power)))

variable {power : Nat}

/-- The zeros at the end of the fraction are what it lacks to the power of ten. -/
theorem exists_zeros_quotient (hpower : power ≠ 0) (n : Nat) : ∃ count,
    (quotient n power).fraction.length + count = power ∧
      value (quotient n power).fraction * 10 ^ count = n % 10 ^ power := by
  obtain ⟨count, hsplit⟩ := exists_append_zeros (zeroPad power (decimal (n % 10 ^ power)))
  refine ⟨count, ?_, ?_⟩
  · have hlength := length_zeroPad_decimal hpower (Nat.mod_lt n (Nat.pow_pos (by decide)))
    rwa [hsplit, List.length_append, length_zeros] at hlength
  · have hvalue : value (zeroPad power (decimal (n % 10 ^ power))) = n % 10 ^ power := by
      rw [value_zeroPad, value_decimal]
    rwa [hsplit, value_append, value_zeros, length_zeros, Nat.add_zero] at hvalue

/-- There is no fraction exactly if the division has no remainder. -/
theorem fraction_quotient_eq_nil_iff (hpower : power ≠ 0) (n : Nat) :
    (quotient n power).fraction = [] ↔ n % 10 ^ power = 0 := by
  obtain ⟨count, hlength, hvalue⟩ := exists_zeros_quotient hpower n
  constructor
  · intro hnil
    rw [hnil] at hvalue
    exact hvalue.symm.trans (Nat.zero_mul _)
  · intro hzero
    by_contra hne
    obtain ⟨front, b, hlast, hb⟩ := last_dropLastZeros hne
    have hlast : (quotient n power).fraction = front ++ [b] := hlast
    have hdigit : isDigit b = true := by
      have hmem : b ∈ zeroPad power (decimal (n % 10 ^ power)) := by
        refine dropLastZeros_subset _ ?_
        change b ∈ (quotient n power).fraction
        simp [hlast]
      exact isDigit_of_mem_zeroPad (isDigit_of_mem_decimal _) b hmem
    have hpos := digitValue_pos hdigit hb
    have hten : 0 < 10 ^ count := Nat.pow_pos (by decide)
    rw [hzero, hlast, value_concat] at hvalue
    rcases Nat.mul_eq_zero.mp hvalue with h | h <;> omega

/-- The text of a quotient is that of its digits on the two sides of a point. -/
theorem fractionText_eq (hpower : power ≠ 0) (n : Nat) :
    fractionText n power = (quotient n power).text false := by
  have hnil := fraction_quotient_eq_nil_iff hpower n
  unfold fractionText Positional.text
  simp only [Nat.pow_eq]
  split
  case isTrue hzero =>
    rw [hnil.mpr hzero]
    rfl
  case isFalse hzero =>
    rw [if_neg]
    · rfl
    · simpa using mt hnil.mp hzero

/-- A quotient is exact. -/
theorem toRat_quotient (hpower : power ≠ 0) (n : Nat) :
    (quotient n power).toRat = (n : ℚ) / 10 ^ power := by
  obtain ⟨count, hlength, hvalue⟩ := exists_zeros_quotient hpower n
  have hwhole : value (quotient n power).whole = n / 10 ^ power := value_decimal _
  have hn : (n / 10 ^ power * 10 ^ (quotient n power).fraction.length +
      value (quotient n power).fraction) * 10 ^ count = n := by
    rw [Nat.add_mul, hvalue, Nat.mul_assoc, ← pow_add, hlength, Nat.div_add_mod']
  have hpower : (10 : ℚ) ^ power = 10 ^ (quotient n power).fraction.length * 10 ^ count := by
    rw [← pow_add, hlength]
  have hcount : (10 : ℚ) ^ count ≠ 0 := by positivity
  calc (quotient n power).toRat
      = ((n / 10 ^ power * 10 ^ (quotient n power).fraction.length +
          value (quotient n power).fraction : Nat) : ℚ) /
          10 ^ (quotient n power).fraction.length := by
        rw [Positional.toRat, value_append, hwhole]
    _ = (((n / 10 ^ power * 10 ^ (quotient n power).fraction.length +
          value (quotient n power).fraction) * 10 ^ count : Nat) : ℚ) / 10 ^ power := by
        rw [hpower, Nat.cast_mul, Nat.cast_pow, Nat.cast_ofNat, mul_div_mul_right _ _ hcount]
    _ = (n : ℚ) / 10 ^ power := by rw [hn]

/-- A whole number of units. -/
def wholeField (n : Nat) (u : TimeUnit) : Field := ⟨⟨decimal n, []⟩, u⟩

/-- A quotient of units. -/
def quotientField (n power : Nat) (u : TimeUnit) : Field := ⟨quotient n power, u⟩

variable {u : TimeUnit}

theorem isFormed_wholeField (n : Nat) (u : TimeUnit) : (wholeField n u).IsFormed where
  whole := List.length_pos_iff.mp (length_decimal_pos n)
  isDigit := by
    rw [wholeField, List.append_nil]
    exact isDigit_of_mem_decimal n
  last := by simp [wholeField]

theorem isFormed_quotientField (n power : Nat) (u : TimeUnit) :
    (quotientField n power u).IsFormed where
  whole := List.length_pos_iff.mp (length_decimal_pos _)
  isDigit := by
    intro b hb
    rcases List.mem_append.mp hb with hb | hb
    · exact isDigit_of_mem_decimal _ b hb
    · exact isDigit_of_mem_zeroPad (isDigit_of_mem_decimal _) b (dropLastZeros_subset _ hb)
  last := by
    change (quotient n power).fraction.getLast? ≠ _
    by_cases hnil : (quotient n power).fraction = []
    · rw [hnil]
      simp
    · obtain ⟨front, b, hlast, hb⟩ := last_dropLastZeros hnil
      have hlast : (quotient n power).fraction = front ++ [b] := hlast
      rw [hlast, List.getLast?_concat]
      simpa using hb

theorem toRat_wholeField (n : Nat) (u : TimeUnit) : (wholeField n u).count.toRat = n := by
  rw [wholeField, Positional.toRat, List.append_nil, value_decimal, List.length_nil, pow_zero,
    div_one]

theorem nanoseconds_wholeField (n : Nat) (u : TimeUnit) :
    (wholeField n u).nanoseconds = n * u.nanoseconds := by
  rw [Field.nanoseconds, toRat_wholeField]
  rfl

/-- A quotient of units that are as many nanoseconds as it is divided by is a number of
nanoseconds. -/
theorem nanoseconds_quotientField (hpower : power ≠ 0) (n : Nat)
    (hu : u.nanoseconds = 10 ^ power) : (quotientField n power u).nanoseconds = n := by
  have hne : (10 : ℚ) ^ power ≠ 0 := by positivity
  have hquotient : (quotientField n power u).nanoseconds =
      (quotient n power).toRat * u.nanoseconds := rfl
  rw [hquotient, toRat_quotient hpower, hu, div_mul_cancel₀ _ hne]

theorem text_wholeField (n : Nat) (u : TimeUnit) : (wholeField n u).text = decimal n ++ u.symbol :=
  rfl

theorem text_quotientField (hpower : power ≠ 0) (n : Nat) (u : TimeUnit) :
    (quotientField n power u).text = fractionText n power ++ u.symbol := by
  rw [fractionText_eq hpower]
  rfl

/-- One field is the breakdown of less than a minute. -/
theorem isBreakdown_single (hf : f.IsFormed)
    (hunit : f.unit ∈ [.nanosecond, .microsecond, .millisecond, .second])
    (hwhole : f.unit = .nanosecond → f.count.fraction = []) (hn : n < 60 * nanosecondsPerSecond)
    (htotal : f.nanoseconds = n) : IsBreakdown n [f] := by
  simp only [List.mem_cons, List.not_mem_nil, or_false] at hunit
  have hbelow : f.unit ≠ .minute ∧ f.unit ≠ .hour := by
    rcases hunit with h | h | h | h <;> rw [h] <;> decide
  refine ⟨by simpa using hf, ?_, ?_, ?_, ?_, by simp, ?_⟩
  · rcases hunit with h | h | h | h <;> simp [h]
  · intro g hg hu
    obtain rfl := List.mem_singleton.mp hg
    rcases hu with h | h | h
    · exact hwhole h
    · exact absurd h hbelow.1
    · exact absurd h hbelow.2
  · exact iff_of_false (by simpa using hbelow.1.symm) (Nat.not_le.mpr hn)
  · exact iff_of_false (by simpa using hbelow.2.symm) (by omega)
  · rw [total, List.map_singleton, List.sum_singleton, htotal]

/-- The seconds that the minutes leave. -/
def secondsField (n : Nat) : Field := quotientField (n % (60 * nanosecondsPerSecond)) 9 .second

theorem secondsField_spec (n : Nat) : (secondsField n).IsFormed ∧
    (secondsField n).nanoseconds = (n % (60 * nanosecondsPerSecond) : Nat) ∧
    (secondsField n).count.toRat < 60 := by
  refine ⟨isFormed_quotientField _ _ _,
    nanoseconds_quotientField (by decide) _ TimeUnit.nanoseconds_second, ?_⟩
  have hlt : n % (60 * nanosecondsPerSecond) < 60 * 10 ^ 9 := Nat.mod_lt _ (by decide)
  have hcount : (secondsField n).count.toRat =
      (n % (60 * nanosecondsPerSecond) : Nat) / 10 ^ 9 := toRat_quotient (by decide) _
  rw [hcount, div_lt_iff₀ (by norm_num)]
  exact_mod_cast hlt

/-- Two fields are the breakdown of at least a minute and less than an hour. -/
theorem isBreakdown_minutes (hlow : 60 * nanosecondsPerSecond ≤ n)
    (hhigh : n < 3600 * nanosecondsPerSecond) :
    IsBreakdown n [wholeField (n / (60 * nanosecondsPerSecond) % 60) .minute, secondsField n] := by
  obtain ⟨hformed, htotal, hbelow⟩ := secondsField_spec n
  have hsecond : (secondsField n).unit = .second := rfl
  have hminute : (wholeField (n / (60 * nanosecondsPerSecond) % 60) .minute).unit = .minute := rfl
  have hn : n / (60 * nanosecondsPerSecond) % 60 * (60 * nanosecondsPerSecond) +
      n % (60 * nanosecondsPerSecond) = n := by
    unfold nanosecondsPerSecond at hhigh ⊢
    omega
  refine ⟨?_, ?_, ?_, ?_, ?_, ?_, ?_⟩
  · simpa [hformed] using isFormed_wholeField _ _
  · simp [hsecond, hminute]
  · simp [hsecond, wholeField]
  · simp [hminute, hlow]
  · simp [hsecond, hminute, hhigh]
  · simpa using hbelow
  · simp only [total, List.map_cons, List.map_nil, List.sum_cons, List.sum_nil, add_zero,
      nanoseconds_wholeField, htotal, TimeUnit.nanoseconds_minute]
    exact_mod_cast hn

/-- Three fields are the breakdown of at least an hour. -/
theorem isBreakdown_hours (hlow : 3600 * nanosecondsPerSecond ≤ n) :
    IsBreakdown n [wholeField (n / (60 * nanosecondsPerSecond) / 60) .hour,
      wholeField (n / (60 * nanosecondsPerSecond) % 60) .minute, secondsField n] := by
  obtain ⟨hformed, htotal, hbelow⟩ := secondsField_spec n
  have hsecond : (secondsField n).unit = .second := rfl
  have hwhole (m : Nat) (u : TimeUnit) : (wholeField m u).unit = u := rfl
  have hn : n / (60 * nanosecondsPerSecond) / 60 * (3600 * nanosecondsPerSecond) +
      (n / (60 * nanosecondsPerSecond) % 60 * (60 * nanosecondsPerSecond) +
        n % (60 * nanosecondsPerSecond)) = n := by
    unfold nanosecondsPerSecond
    omega
  have hsixty : n / (60 * nanosecondsPerSecond) % 60 < 60 := Nat.mod_lt _ (by decide)
  refine ⟨?_, ?_, ?_, ?_, ?_, ?_, ?_⟩
  · simp [hformed, isFormed_wholeField]
  · simp [hsecond, hwhole]
  · simp [hsecond, wholeField]
  · have hminute : 60 * nanosecondsPerSecond ≤ n := by omega
    simp [hwhole, hminute]
  · simp [hwhole, hlow]
  · simp only [List.tail_cons, List.mem_cons, List.not_mem_nil, or_false, forall_eq_or_imp,
      forall_eq, toRat_wholeField, hbelow, and_true]
    exact_mod_cast hsixty
  · simp only [total, List.map_cons, List.map_nil, List.sum_cons, List.sum_nil, add_zero,
      nanoseconds_wholeField, htotal, TimeUnit.nanoseconds_minute, TimeUnit.nanoseconds_hour]
    exact_mod_cast hn

/-- The text of a number of nanoseconds is that of a breakdown. -/
theorem exists_breakdown (n : Nat) :
    ∃ fields, IsBreakdown n fields ∧ textOf fields = magnitudeText n := by
  have hsingle (f : Field) : textOf [f] = f.text := List.flatMap_singleton ..
  have hcons (f : Field) (fields : List Field) : textOf (f :: fields) = f.text ++ textOf fields :=
    List.flatMap_cons ..
  have hseconds : (secondsField n).text =
      fractionText (n % (60 * nanosecondsPerSecond)) 9 ++ utf8 "s" :=
    text_quotientField (by decide) _ _
  have hbillion : nanosecondsPerSecond = 10 ^ 9 := rfl
  unfold magnitudeText
  split
  case isTrue hn =>
    refine ⟨[wholeField n .nanosecond], isBreakdown_single (isFormed_wholeField _ _)
      (by simp [wholeField]) (fun _ => rfl) (by omega) ?_, hsingle _⟩
    rw [nanoseconds_wholeField, TimeUnit.nanoseconds_nanosecond, mul_one]
  split
  case isTrue hn =>
    refine ⟨[quotientField n 3 .microsecond], isBreakdown_single (isFormed_quotientField _ _ _)
      (by simp [quotientField]) (by simp [quotientField]) (by omega)
      (nanoseconds_quotientField (by decide) n TimeUnit.nanoseconds_microsecond), ?_⟩
    rw [hsingle, text_quotientField (by decide)]
    rfl
  split
  case isTrue hn =>
    refine ⟨[quotientField n 6 .millisecond], isBreakdown_single (isFormed_quotientField _ _ _)
      (by simp [quotientField]) (by simp [quotientField]) (by omega)
      (nanoseconds_quotientField (by decide) n TimeUnit.nanoseconds_millisecond), ?_⟩
    rw [hsingle, text_quotientField (by decide)]
    rfl
  case isFalse =>
    dsimp only
    by_cases hminute : n < 60 * nanosecondsPerSecond
    · obtain ⟨hformed, htotal, _⟩ := secondsField_spec n
      rw [Nat.mod_eq_of_lt hminute] at htotal
      refine ⟨[secondsField n], isBreakdown_single hformed (by simp [secondsField, quotientField])
        (by simp [secondsField, quotientField]) hminute htotal, ?_⟩
      rw [Nat.div_eq_of_lt hminute, if_pos rfl, if_pos rfl, hsingle, hseconds]
      rfl
    have hminutes : n / (60 * nanosecondsPerSecond) ≠ 0 := by
      rw [hbillion] at hminute ⊢
      omega
    by_cases hhour : n < 3600 * nanosecondsPerSecond
    · have hhours : n / (60 * nanosecondsPerSecond) / 60 = 0 := by
        rw [hbillion] at hhour ⊢
        omega
      refine ⟨_, isBreakdown_minutes (Nat.not_lt.mp hminute) hhour, ?_⟩
      rw [if_pos hhours, if_neg hminutes, hcons, hsingle, hseconds, text_wholeField]
      simp only [List.nil_append, List.append_assoc]
      rfl
    · have hhours : n / (60 * nanosecondsPerSecond) / 60 ≠ 0 := by
        rw [hbillion] at hhour ⊢
        omega
      refine ⟨_, isBreakdown_hours (Nat.not_lt.mp hhour), ?_⟩
      rw [if_neg hhours, if_neg hminutes, hcons, hcons, hsingle, hseconds, text_wholeField,
        text_wholeField]
      simp only [List.append_assoc]
      rfl

/-- The text of a duration other than zero is a sign and the text of its absolute value. -/
theorem text_eq (d : Duration) : d.text =
    if d.nanoseconds.toInt = 0 then utf8 "0s"
    else (if d.nanoseconds.toInt < 0 then utf8 "-" else []) ++
      magnitudeText d.nanoseconds.toInt.natAbs := by
  have hzero : d.nanoseconds = 0 ↔ d.nanoseconds.toInt = 0 := Int64.toInt_inj.symm
  have hword : (Word.signed d.nanoseconds).toInt = d.nanoseconds.toInt := rfl
  unfold text
  simp only [hzero, Word.negative_eq, Word.toNat_magnitude, hword, decide_eq_true_eq]
  split
  case isTrue => rfl
  split <;> rfl

/-- Text that starts like a field is read without a sign. -/
theorem read?_textOf (h : ∀ f ∈ fields, f.IsFormed) :
    read? (textOf fields) = some (total fields) ∧
      read? (utf8 "-" ++ textOf fields) = some (-total fields) := by
  constructor
  · have hhead : (textOf fields).head? ≠ some '-'.toUInt8 := by
      cases fields with
      | nil => simp [textOf]
      | cons f fields =>
        have hf := h f (List.mem_cons_self ..)
        intro hminus
        rw [textOf, List.flatMap_cons, Field.text, List.append_assoc,
          List.head?_append_of_ne_nil _ hf.text_ne_nil] at hminus
        exact absurd (hf.isCount _ (List.mem_of_mem_head? hminus)) (by decide)
    rw [read?, if_neg hhead, readFields?_textOf h]
  · have hminus : utf8 "-" ++ textOf fields = '-'.toUInt8 :: textOf fields := rfl
    rw [hminus, read?, if_pos List.head?_cons, List.tail_cons, readFields?_textOf h]
    rfl

/-- The text of a duration is that of a sign and fields. -/
theorem exists_fields (d : Duration) : ∃ fields,
    d.text = (if d.nanoseconds.toInt < 0 then utf8 "-" else []) ++ textOf fields ∧
      (∀ f ∈ fields, f.IsFormed) ∧ total fields = d.nanoseconds.toInt.natAbs ∧
      (d.nanoseconds.toInt ≠ 0 → IsBreakdown d.nanoseconds.toInt.natAbs fields) := by
  rw [text_eq]
  by_cases hzero : d.nanoseconds.toInt = 0
  · refine ⟨[wholeField 0 .second], ?_, ?_, ?_, fun hne => absurd hzero hne⟩
    · have hfield : textOf [wholeField 0 .second] = decimal 0 ++ utf8 "s" :=
        List.flatMap_singleton ..
      rw [if_pos hzero, if_neg (by omega), hfield, decimal_of_lt (by decide)]
      rfl
    · simpa using isFormed_wholeField 0 .second
    · rw [hzero, total, List.map_singleton, List.sum_singleton, nanoseconds_wholeField]
      simp
  · obtain ⟨fields, hfields, htext⟩ := exists_breakdown d.nanoseconds.toInt.natAbs
    refine ⟨fields, ?_, hfields.formed, hfields.total, fun _ => hfields⟩
    rw [if_neg hzero, htext]

/-- Reading the text of a duration finds its number of nanoseconds. -/
theorem read?_text (d : Duration) : read? d.text = some (d.nanoseconds.toInt : ℚ) := by
  obtain ⟨fields, htext, hformed, htotal, -⟩ := exists_fields d
  obtain ⟨hpos, hneg⟩ := read?_textOf hformed
  rw [htext]
  split
  case isTrue h =>
    have hn : d.nanoseconds.toInt = -(d.nanoseconds.toInt.natAbs : Int) := by omega
    rw [hneg, htotal, hn]
    simp
  case isFalse h =>
    have hn : d.nanoseconds.toInt = (d.nanoseconds.toInt.natAbs : Int) := by omega
    rw [List.nil_append, hpos, htotal, hn]
    simp

/-- The text of a duration is a minus sign for a negative one and a breakdown of its absolute value
into fields, which are read as the duration. A duration of no length is zero seconds. So no two
durations have the same text. -/
theorem duration_text_reads_back (d : Duration) : ∃ fields,
    d.text = (if d.nanoseconds.toInt < 0 then utf8 "-" else []) ++ textOf fields ∧
      (d.nanoseconds.toInt = 0 → d.text = utf8 "0s") ∧
      (d.nanoseconds.toInt ≠ 0 → IsBreakdown d.nanoseconds.toInt.natAbs fields) ∧
      read? d.text = some (d.nanoseconds.toInt : ℚ) ∧
      ∀ other : Duration, other.text = d.text → other = d := by
  obtain ⟨fields, htext, -, -, hbreakdown⟩ := exists_fields d
  refine ⟨fields, htext, fun hzero => ?_, hbreakdown, read?_text d, fun other heq => ?_⟩
  · rw [text_eq, if_pos hzero]
  · have hsame : some (other.nanoseconds.toInt : ℚ) = some (d.nanoseconds.toInt : ℚ) := by
      rw [← read?_text, ← read?_text, heq]
    have hn : other.nanoseconds.toInt = d.nanoseconds.toInt := by
      exact_mod_cast Option.some.inj hsame
    exact congrArg Duration.mk (Int64.toInt_inj.mp hn)

/-- The absolute value of the least duration is no signed word, and it is written all the same. -/
example : (⟨Int64.minValue⟩ : Duration).text = utf8 "-2562047h47m16.854775808s" := by
  decide +kernel

end Duration

end LeveledLog
