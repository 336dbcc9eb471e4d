import LeveledLog.Proofs.CivilDate
import LeveledLog.Proofs.Numeral
import LeveledLog.Stamp

/-!
# Reading stamps

The numbers of a stamp are those of the civil time of the second that holds the instant, which no
operation on the way to it overflows. So two instants have the same stamp exactly if they lie in the
same second. Stamps with a year of four digits have the order of their seconds.
-/

namespace LeveledLog

open Numeral

namespace Stamp

/-- Whether a byte stands between two numbers of a stamp. -/
def isSeparator (b : UInt8) : Bool :=
  b == '/'.toUInt8 || b == ':'.toUInt8 || b == ' '.toUInt8

/-- The number that a text is from its first to its last byte. -/
def number? (s : Bytes) : Option Int :=
  (leading? s).bind fun n =>
    if n.rest = [] then some (if n.negative then -(n.magnitude : Int) else n.magnitude) else none

/-- Read the numbers of a stamp. Each has a separator behind it. -/
def read? (s : Bytes) : Option (List Int) := (s.splitOnP isSeparator).dropLast.mapM number?

/-- A civil time is that of an instant: one of the calendar and the clock, as many seconds behind
the start of 1970 as the instant, rounded down. -/
structure Denotes (now : Instant) (t : CivilTime) : Prop where
  isValid : t.IsValid
  seconds : t.seconds = now.toInt / 1000

variable {now : Instant} {t u : CivilTime} {s : Bytes} {year : Int}

/-! ## The second of an instant -/

/-- No operation on the way to the second of an instant overflows, and it is the quotient rounded
down. -/
theorem second_spec (now : Instant) :
    (now / 1000).toInt = now.toInt.tdiv 1000 ∧ (now % 1000).toInt = now.toInt.tmod 1000 ∧
      (now / 1000 - 1).toInt = (now / 1000).toInt - 1 ∧ (second now).toInt = now.toInt / 1000 := by
  have hlow := now.le_toInt
  have hhigh := now.toInt_lt
  have hdiv : (now / 1000).toInt = now.toInt.tdiv 1000 :=
    Int64.toInt_div_of_ne_right now 1000 (by decide)
  have hmod : (now % 1000).toInt = now.toInt.tmod 1000 := Int64.toInt_mod now 1000
  have hfloor : now.toInt.tdiv 1000 =
      now.toInt / 1000 + if now.toInt < 0 ∧ now.toInt.tmod 1000 ≠ 0 then 1 else 0 := by
    simp only [ne_eq, ← Int.dvd_iff_tmod_eq_zero]
    rw [Int.tdiv_eq_ediv, Int.sign_eq_one_of_pos (by decide)]
    split <;> split <;> omega
  have hsub : (now / 1000 - 1).toInt = (now / 1000).toInt - 1 := by
    rw [Int64.toInt_sub, hdiv, Int64.toInt_one, hfloor]
    exact Int.bmod_eq_of_le (by split <;> omega) (by split <;> omega)
  refine ⟨hdiv, hmod, hsub, ?_⟩
  have hnegative : now < 0 ↔ now.toInt < 0 := Int64.lt_iff_toInt_lt
  have hinside : now % 1000 ≠ 0 ↔ now.toInt.tmod 1000 ≠ 0 := by
    rw [← hmod]
    exact Int64.toInt_inj.not.symm
  simp only [second, hnegative, hinside]
  split
  case isTrue h => rw [hsub, hdiv, hfloor, if_pos h, Int.add_sub_cancel]
  case isFalse h => rw [hdiv, hfloor, if_neg h, Int.add_zero]

/-! ## The numbers of a stamp -/

/-- No separator stands in an integer without white space. -/
theorem not_isSeparator {sign digits : Bytes} (h : IsInteger s [] sign digits) :
    ∀ b ∈ s, isSeparator b = false := by
  have hsign : (sign.all fun b => !isSeparator b) = true := by
    rcases h.sign with rfl | rfl | rfl <;> decide
  have hdigit {b : UInt8} (hb : Numeral.isDigit b = true) : isSeparator b = false := by
    simp only [isSeparator, Bool.or_eq_false_iff, beq_eq_false_iff_ne]
    refine ⟨⟨?_, ?_⟩, ?_⟩ <;> rintro rfl <;> exact absurd hb (by decide)
  intro b hb
  rw [h.text, List.nil_append] at hb
  rcases List.mem_append.mp hb with hb | hb
  · simpa using List.all_eq_true.mp hsign b hb
  · exact hdigit (h.isDigit b hb)

/-- The numeral of a number in some places is an integer. -/
theorem isInteger_zeroPad (k n : Nat) :
    IsInteger (zeroPad k (decimal n)) [] [] (zeroPad k (decimal n)) where
  text := rfl
  isSpace := by simp
  sign := .inl rfl
  ne_nil := by
    have hpos := length_decimal_pos n
    rw [← List.length_pos_iff, length_zeroPad]
    omega
  isDigit := isDigit_of_mem_zeroPad (isDigit_of_mem_decimal n)

/-- The text of a year is an integer, with a sign for a negative one. -/
theorem isInteger_yearText (year : Int) : ∃ sign places, IsInteger (yearText year) [] sign
    (zeroPad places (decimal year.natAbs)) ∧ (sign = utf8 "-" ↔ year < 0) := by
  unfold yearText
  split
  case isTrue hneg =>
    have hdigits := isInteger_zeroPad 3 year.natAbs
    exact ⟨utf8 "-", 3, ⟨rfl, by simp, .inr (.inr rfl), hdigits.ne_nil, hdigits.isDigit⟩,
      iff_of_true rfl hneg⟩
  case isFalse hneg =>
    exact ⟨[], 4, isInteger_zeroPad 4 year.natAbs, iff_of_false (by decide) hneg⟩

theorem number?_yearText (year : Int) : number? (yearText year) = some year := by
  obtain ⟨sign, places, hinteger, hsign⟩ := isInteger_yearText year
  rw [number?, hinteger.leading?, Option.bind_some, if_pos rfl, value_zeroPad, value_decimal]
  simp only [hsign, decide_eq_true_eq]
  split <;> exact congrArg some (by omega)

theorem number?_twoDigits (n : Nat) : number? (twoDigits n) = some n := by
  rw [number?, twoDigits, (isInteger_zeroPad 2 n).leading?, Option.bind_some, if_pos rfl,
    value_zeroPad, value_decimal]
  rfl

/-- The sum that is the year of a civil time does not overflow. -/
def YearFits (t : CivilTime) : Prop := (t.yearsSince1900 + 1900).toInt = t.date.year

/-- A stamp has a separator behind each of its numbers. -/
theorem text_eq (h : YearFits t) : text t =
    yearText t.date.year ++ '/'.toUInt8 :: (twoDigits t.month ++ '/'.toUInt8 :: (twoDigits t.day ++
      ' '.toUInt8 :: (twoDigits t.hour ++ ':'.toUInt8 :: (twoDigits t.minute ++
        ':'.toUInt8 :: (twoDigits t.second ++ [' '.toUInt8]))))) := by
  rw [text, h]
  simp only [List.append_assoc]
  rfl

/-- A stamp is read as the numbers of its civil time. -/
theorem read?_text (h : YearFits t) : read? (text t) = some t.fields := by
  obtain ⟨_, _, hyear, _⟩ := isInteger_yearText t.date.year
  have htwo (n : Nat) (rest : Bytes) {b : UInt8} (hb : isSeparator b = true) :
      (twoDigits n ++ b :: rest).splitOnP isSeparator =
        twoDigits n :: rest.splitOnP isSeparator :=
    List.splitOnP_append_cons_of_forall_mem (not_isSeparator (isInteger_zeroPad 2 n)) b hb rest
  rw [read?, text_eq h, List.splitOnP_append_cons_of_forall_mem (not_isSeparator hyear) _ rfl,
    htwo _ _ rfl, htwo _ _ rfl, htwo _ _ rfl, htwo _ _ rfl, htwo _ _ rfl, List.splitOnP_nil]
  simp [List.mapM_cons, number?_yearText, number?_twoDigits, CivilTime.fields, CivilTime.date]

/-- The stamp of a civil time is not what stands in the place of a stamp. -/
theorem text_ne_fallback (ht : t.IsValid) (h : YearFits t) : text t ≠ fallback := by
  intro heq
  have hzero : read? fallback = some [0, 0, 0, 0, 0, 0] := by decide
  rw [← heq, read?_text h, Option.some.injEq, CivilTime.fields, List.cons.injEq,
    List.cons.injEq] at hzero
  have hmonth : 1 ≤ t.month := ht.date.month.1
  omega

/-! ## Length and order -/

/-- The numbers of a civil time behind the year have at most two digits. -/
theorem lt_of_isValid (h : t.IsValid) : t.month < 10 ^ 2 ∧ t.day < 10 ^ 2 ∧ t.hour < 10 ^ 2 ∧
    t.minute < 10 ^ 2 ∧ t.second < 10 ^ 2 := by
  obtain ⟨⟨⟨-, hmonth⟩, -, hday⟩, hhour, hminute, hsecond⟩ := h
  have hlength (year : Int) (month : Nat) : CivilDate.monthLength year month ≤ 31 := by
    unfold CivilDate.monthLength
    split
    · split <;> decide
    all_goals decide
  have hmonth : t.month ≤ 12 := hmonth
  have hday : t.day ≤ 31 := hday.trans (hlength _ _)
  omega

/-- A stamp has sixteen bytes behind its year. -/
theorem length_text (ht : t.IsValid) (h : YearFits t) :
    (text t).length = (yearText t.date.year).length + 16 := by
  obtain ⟨hmonth, hday, hhour, hminute, hsecond⟩ := lt_of_isValid ht
  have htwo {n : Nat} (hn : n < 10 ^ 2) : (twoDigits n).length = 2 :=
    length_zeroPad_decimal (by decide) hn
  simp only [text_eq h, List.length_append, List.length_cons, List.length_nil, htwo hmonth,
    htwo hday, htwo hhour, htwo hminute, htwo hsecond]

theorem yearText_of_nonneg (h : 0 ≤ year) : yearText year = zeroPad 4 (decimal year.natAbs) :=
  if_neg (Int.not_lt.mpr h)

/-- The year takes ten bytes at most if it has nine digits at most. -/
theorem length_yearText_le (h : year.natAbs < 10 ^ 9) : (yearText year).length ≤ 10 := by
  have hnine := length_decimal_le (by decide) h
  unfold yearText
  split
  · rw [List.length_cons, length_zeroPad]
    omega
  · rw [length_zeroPad]
    omega

/-- In years of four digits stamps have the order of the numbers of their civil times. -/
theorem text_lt_text_iff (ht : t.IsValid) (hu : u.IsValid) (htfits : YearFits t)
    (hufits : YearFits u) (htyear : 0 ≤ t.date.year ∧ t.date.year ≤ 9999)
    (huyear : 0 ≤ u.date.year ∧ u.date.year ≤ 9999) : text t < text u ↔ t.fields < u.fields := by
  obtain ⟨htmonth, htday, hthour, htminute, htsecond⟩ := lt_of_isValid ht
  obtain ⟨humonth, huday, huhour, huminute, husecond⟩ := lt_of_isValid hu
  have htwo {m n : Nat} {s s' : Bytes} (hm : m < 10 ^ 2) (hn : n < 10 ^ 2) :
      twoDigits m ++ s < twoDigits n ++ s' ↔ m < n ∨ m = n ∧ s < s' :=
    zeroPad_append_lt_iff (by decide) hm hn
  have hyear : t.date.year.natAbs < u.date.year.natAbs ↔ t.date.year < u.date.year := by omega
  have hsame : t.date.year.natAbs = u.date.year.natAbs ↔ t.date.year = u.date.year := by omega
  rw [text_eq htfits, text_eq hufits, yearText_of_nonneg htyear.1, yearText_of_nonneg huyear.1,
    zeroPad_append_lt_iff (by decide) (by omega) (by omega), hyear, hsame]
  simp only [List.cons_lt_cons_self, htwo htmonth humonth, htwo htday huday, htwo hthour huhour,
    htwo htminute huminute, htwo htsecond husecond, CivilTime.fields, List.cons_lt_cons_iff,
    List.not_lt_nil, and_false, or_false, Int.ofNat_lt, Int.natCast_inj]

/-! ## The stamp of an instant -/

/-- An instant has a civil time, and its stamp is that of the civil time. -/
theorem exists_denotes (now : Instant) : ∃ t, Denotes now t ∧ YearFits t ∧
    ofInstant now = text t := by
  have hsecond := (second_spec now).2.2.2
  have hlow := now.le_toInt
  have hhigh := now.toInt_lt
  obtain ⟨t, ht, hyear⟩ := CivilTime.exists_ofSecond? (s := second now) (by omega) (by omega)
  obtain ⟨hvalid, hseconds⟩ := CivilTime.ofSecond?_spec ht
  have hfits : YearFits t := by
    have hdate : t.date.year = t.yearsSince1900.toInt + 1900 := rfl
    have hconstant : (1900 : Int32).toInt = 1900 := by decide
    rw [YearFits, Int32.toInt_add, hconstant, ← hdate]
    exact Int.bmod_eq_of_le (by omega) (by omega)
  have hlength := length_text hvalid hfits
  have hshort := length_yearText_le hyear
  refine ⟨t, ⟨hvalid, hseconds.trans hsecond⟩, hfits, ?_⟩
  unfold ofInstant
  rw [ht]
  refine if_pos ⟨by omega, ?_⟩
  unfold room
  omega

/-- An instant has one civil time only. -/
theorem Denotes.unique (ht : Denotes now t) (hu : Denotes now u) : t = u :=
  CivilTime.seconds_injective ht.isValid hu.isValid (ht.seconds.trans hu.seconds.symm)

/-- Two instants have the same stamp exactly if they lie in the same second. -/
theorem ofInstant_eq_iff (now other : Instant) :
    ofInstant other = ofInstant now ↔ other.toInt / 1000 = now.toInt / 1000 := by
  constructor
  · intro heq
    obtain ⟨t, ht, hfits, htext⟩ := exists_denotes now
    obtain ⟨u, hu, hufits, hutext⟩ := exists_denotes other
    rw [htext, hutext] at heq
    have hfields : some u.fields = some t.fields := by
      rw [← read?_text hufits, ← read?_text hfits, heq]
    rw [← ht.seconds, ← hu.seconds, CivilTime.fields_injective (Option.some.inj hfields)]
  · intro heq
    have hsecond : second other = second now := Int64.toInt_inj.mp <| by
      rw [(second_spec other).2.2.2, (second_spec now).2.2.2, heq]
    unfold ofInstant
    rw [hsecond]

/-- The stamp of an instant has the numbers of the civil time of the second that holds it. No
operation on the way overflows and no stamp is replaced. Two instants have the same stamp exactly if
they lie in the same second. In years of four digits the stamp has twenty bytes, and stamps have the
order of their seconds. -/
theorem stamp_denotes_its_second (now : Instant) :
    ((now / 1000).toInt = now.toInt.tdiv 1000 ∧ (now % 1000).toInt = now.toInt.tmod 1000 ∧
      (now / 1000 - 1).toInt = (now / 1000).toInt - 1 ∧
      (second now).toInt = now.toInt / 1000) ∧
    ∃ t, Denotes now t ∧ YearFits t ∧ ofInstant now = text t ∧
      read? (ofInstant now) = some t.fields ∧ ofInstant now ≠ fallback ∧
      (∀ other, ofInstant other = ofInstant now ↔ other.toInt / 1000 = now.toInt / 1000) ∧
      (0 ≤ t.date.year ∧ t.date.year ≤ 9999 → (ofInstant now).length = 20 ∧
        ∀ other u, Denotes other u → 0 ≤ u.date.year ∧ u.date.year ≤ 9999 →
          (ofInstant now < ofInstant other ↔ now.toInt / 1000 < other.toInt / 1000)) := by
  obtain ⟨t, ht, hfits, htext⟩ := exists_denotes now
  refine ⟨second_spec now, t, ht, hfits, htext, ?_, ?_, ofInstant_eq_iff now,
    fun hyear => ⟨?_, ?_⟩⟩
  · rw [htext, read?_text hfits]
  · rw [htext]
    exact text_ne_fallback ht.isValid hfits
  · have hfour : t.date.year.natAbs < 10 ^ 4 := by omega
    rw [htext, length_text ht.isValid hfits, yearText_of_nonneg hyear.1,
      length_zeroPad_decimal (by decide) hfour]
  · intro other u hu huyear
    obtain ⟨u', hu', hufits, hutext⟩ := exists_denotes other
    obtain rfl := hu.unique hu'
    rw [htext, hutext, text_lt_text_iff ht.isValid hu.isValid hfits hufits hyear huyear,
      ← CivilTime.seconds_lt_seconds_iff ht.isValid hu.isValid, ht.seconds, hu.seconds]

/-- The last millisecond before 1970 is in its second, which comes before that of 1970. -/
theorem stamp_before_1970 :
    read? (ofInstant (-1)) = some [1969, 12, 31, 23, 59, 59] ∧ (ofInstant (-1)).length = 20 ∧
      ofInstant (-1) < ofInstant 0 := by
  have hbefore : Denotes (-1) ⟨69, 12, 31, 23, 59, 59⟩ :=
    ⟨⟨⟨by decide, by decide⟩, by decide, by decide, by decide⟩, by decide⟩
  have hstart : Denotes 0 ⟨70, 1, 1, 0, 0, 0⟩ :=
    ⟨⟨⟨by decide, by decide⟩, by decide, by decide, by decide⟩, by decide⟩
  obtain ⟨-, t, ht, -, -, hread, -, -, hfour⟩ := stamp_denotes_its_second (-1)
  obtain rfl := ht.unique hbefore
  obtain ⟨hlength, horder⟩ := hfour (by decide)
  exact ⟨hread, hlength, (horder 0 _ hstart (by decide)).mpr (by decide)⟩

end Stamp

end LeveledLog
