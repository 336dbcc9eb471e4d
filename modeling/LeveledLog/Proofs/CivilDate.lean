import LeveledLog.CivilDate
import Mathlib

/-!
# The calendar

The date of a day is a date of the Gregorian calendar, with as many days between it and the first
day of 1970 as there are between the two days. Every second has one date and one time of day, and of
two seconds the one with the lower fields comes first.
-/

namespace LeveledLog

namespace CivilDate

/-- Every fourth year is a leap year, but of the years that end a century only every fourth. -/
def IsLeapYear (year : Int) : Prop := 4 ∣ year ∧ (100 ∣ year → 400 ∣ year)

instance : DecidablePred IsLeapYear := fun year =>
  inferInstanceAs (Decidable (4 ∣ year ∧ (100 ∣ year → 400 ∣ year)))

/-- The number of days in a year. -/
def yearLength (year : Int) : Nat := if IsLeapYear year then 366 else 365

/-- The number of days in a month of a year. -/
def monthLength (year : Int) : Nat → Nat
  | 2 => if IsLeapYear year then 29 else 28
  | 4 | 6 | 9 | 11 => 30
  | _ => 31

/-- The calendar has the date. -/
structure IsValid (d : CivilDate) : Prop where
  month : 1 ≤ d.month ∧ d.month ≤ 12
  day : 1 ≤ d.day ∧ d.day ≤ monthLength d.year d.month

/-- The number of days from the start of 1970 to the start of a year, below zero for a year before
it. -/
def yearStart (year : Int) : Int :=
  ∑ i ∈ Finset.range (year - 1970).toNat, (yearLength (1970 + i) : Int) -
    ∑ i ∈ Finset.range (1970 - year).toNat, (yearLength (1969 - i) : Int)

/-- The number of days from the start of a year to the start of one of its months. -/
def monthStart (year : Int) (month : Nat) : Nat := ∑ m ∈ Finset.Ico 1 month, monthLength year m

/-- The number of days from the first day of 1970 to a date. -/
def days (d : CivilDate) : Int := yearStart d.year + monthStart d.year d.month + (d.day - 1)

variable {d e : CivilDate} {year : Int}

/-! ## Years -/

theorem isLeap_eq (year : Int) : isLeap year = decide (IsLeapYear year) := by
  rw [Bool.eq_iff_iff, decide_eq_true_eq, isLeap, IsLeapYear]
  simp only [Bool.and_eq_true, Bool.or_eq_true, beq_iff_eq, bne_iff_ne]
  omega

/-- A year starts where the year before it ends. -/
theorem yearStart_add_one (year : Int) :
    yearStart (year + 1) = yearStart year + yearLength year := by
  unfold yearStart
  rcases lt_or_ge year 1970 with h | h
  · have hnone : (year - 1970).toNat = 0 ∧ (year + 1 - 1970).toNat = 0 := by omega
    have hcount : (1970 - year).toNat = (1970 - (year + 1)).toNat + 1 := by omega
    have hlast : 1969 - ((1970 - (year + 1)).toNat : Int) = year := by omega
    rw [hnone.1, hnone.2, hcount, Finset.sum_range_succ, hlast]
    omega
  · have hnone : (1970 - year).toNat = 0 ∧ (1970 - (year + 1)).toNat = 0 := by omega
    have hcount : (year + 1 - 1970).toNat = (year - 1970).toNat + 1 := by omega
    have hlast : 1970 + ((year - 1970).toNat : Int) = year := by omega
    rw [hnone.1, hnone.2, hcount, Finset.sum_range_succ, hlast]
    omega

/-- The leap day of a year is one of the years up to it that have one. -/
theorem yearLength_eq (year : Int) : (yearLength year : Int) =
    365 + (year / 4 - (year - 1) / 4) - (year / 100 - (year - 1) / 100) +
      (year / 400 - (year - 1) / 400) := by
  unfold yearLength
  split
  case isTrue h =>
    unfold IsLeapYear at h
    omega
  case isFalse h =>
    unfold IsLeapYear at h
    omega

/-- The leap days before a year are counted by division. -/
theorem yearStart_eq (year : Int) : yearStart year =
    365 * (year - 1) + (year - 1) / 4 - (year - 1) / 100 + (year - 1) / 400 -
      CivilTime.epochDay := by
  unfold CivilTime.epochDay
  refine Int.inductionOn' year 1970 (by decide) (fun y _ ih => ?_) (fun y _ ih => ?_)
  · rw [yearStart_add_one, ih, yearLength_eq, Int.add_sub_cancel]
    omega
  · have hstep := yearStart_add_one (y - 1)
    rw [Int.sub_add_cancel, ih, yearLength_eq] at hstep
    omega

/-- Later years start later. -/
theorem yearStart_mono : Monotone yearStart := by
  intro year later h
  rw [yearStart_eq, yearStart_eq]
  omega

/-- The year behind so many cycles, centuries, groups of four years and single years. -/
def yearBehind (cycle : Int) (century four single : Nat) : Int :=
  400 * cycle + (100 * century + 4 * four + single + 1 : Nat)

/-- A year starts behind the days of the groups of years in front of it, and it takes a leap day if
it is the last one of four, but not of a century other than the last one of its cycle. -/
theorem yearBehind_spec (cycle : Int) {century four single : Nat} (hcentury : century ≤ 3)
    (hfour : four ≤ 24) (hsingle : single ≤ 3) :
    yearStart (yearBehind cycle century four single) =
        146097 * cycle + (36524 * century + 1461 * four + 365 * single : Nat) - CivilTime.epochDay ∧
      yearLength (yearBehind cycle century four single) =
        if single = 3 ∧ (four = 24 → century = 3) then 366 else 365 := by
  have hyear : yearBehind cycle century four single - 1 =
      400 * cycle + (100 * century + 4 * four + single : Nat) := by
    unfold yearBehind
    omega
  have hfours : (400 * cycle + (100 * century + 4 * four + single : Nat)) / 4 =
      100 * cycle + 25 * century + four := by omega
  have hcenturies : (400 * cycle + (100 * century + 4 * four + single : Nat)) / 100 =
      4 * cycle + century := by omega
  have hcycles : (400 * cycle + (100 * century + 4 * four + single : Nat)) / 400 = cycle := by omega
  constructor
  · rw [yearStart_eq, hyear, hfours, hcenturies, hcycles]
    omega
  · have hleap : IsLeapYear (yearBehind cycle century four single) ↔
        single = 3 ∧ (four = 24 → century = 3) := by
      unfold IsLeapYear yearBehind
      omega
    simp only [yearLength, hleap]

/-- A day lies in its year, as many days behind its start as its number says. -/
theorem yearDay_spec (day : Int) :
    yearStart (yearDay day).1 + (yearDay day).2 = day - CivilTime.epochDay ∧
      (yearDay day).2 < yearLength (yearDay day).1 := by
  -- The groups of years behind which the day lies in its cycle, and the days behind them.
  obtain ⟨century, four, single, hyear, hcentury, hfour, hsingle, hday, hrest⟩ :
      ∃ century four single : Nat,
        (yearDay day).1 = yearBehind (day / cycleDays) century four single ∧
        century ≤ 3 ∧ four ≤ 24 ∧ single ≤ 3 ∧
        day = 146097 * (day / cycleDays) +
          (36524 * century + 1461 * four + 365 * single + (yearDay day).2 : Nat) ∧
        ((yearDay day).2 < 365 ∨
          (yearDay day).2 = 365 ∧ single = 3 ∧ (four = 24 → century = 3)) := by
    simp only [yearDay, cycleDays, centuryDays, fourYearDays, yearDays]
    refine ⟨_, _, _, rfl, ?_⟩
    omega
  obtain ⟨hstart, hlength⟩ := yearBehind_spec (day / cycleDays) hcentury hfour hsingle
  rw [hyear, hstart, hlength]
  constructor
  · omega
  · split <;> omega

/-! ## Months -/

/-- A day is placed in the month before whose end it lies. -/
theorem monthDay_spec (month : Nat) {lengths : List Nat} {day : Nat} (h : day < lengths.sum) :
    ∃ i < lengths.length, (monthDay month lengths day).1 = month + i ∧
      (lengths.take i).sum + (monthDay month lengths day).2 = day + 1 ∧
      1 ≤ (monthDay month lengths day).2 ∧
      ∀ length ∈ lengths[i]?, (monthDay month lengths day).2 ≤ length := by
  induction lengths generalizing month day with
  | nil => simp at h
  | cons length rest ih =>
    rw [monthDay]
    split
    case isTrue hday => exact ⟨0, by simp, by simp, by simp, by simp, by simpa using hday⟩
    case isFalse hday =>
      rw [List.sum_cons] at h
      obtain ⟨i, hi, hmonth, hsum, hone, hlength⟩ :=
        ih (month + 1) (Nat.sub_lt_left_of_lt_add (Nat.le_of_not_lt hday) h)
      refine ⟨i + 1, by simpa using hi, by omega, ?_, hone, hlength⟩
      rw [List.take_succ_cons, List.sum_cons]
      omega

/-- The months have the lengths of the calendar. -/
theorem monthLengths_eq (year : Int) :
    monthLengths (isLeap year) = (List.range' 1 12).map (monthLength year) := by
  rw [isLeap_eq]
  simp [monthLengths, List.range'_succ, monthLength]

theorem sum_monthLengths (year : Int) : (monthLengths (isLeap year)).sum = yearLength year := by
  by_cases h : IsLeapYear year <;> simp [isLeap_eq, yearLength, monthLengths, h]

theorem monthStart_add_one (year : Int) {month : Nat} (h : 1 ≤ month) :
    monthStart year (month + 1) = monthStart year month + monthLength year month :=
  Finset.sum_Ico_succ_top h _

/-- The months in front of another are as long as the way to its start. -/
theorem sum_take_monthLengths (year : Int) {i : Nat} (h : i ≤ 12) :
    ((monthLengths (isLeap year)).take i).sum = monthStart year (1 + i) := by
  induction i with
  | zero => rfl
  | succ i ih =>
    have hmonth : (monthLengths (isLeap year))[i]? = some (monthLength year (1 + i)) := by
      rw [monthLengths_eq, List.getElem?_map, List.getElem?_range' (by omega), Option.map_some,
        Nat.one_mul]
    rw [List.take_add_one, hmonth, List.sum_append, ih (by omega), ← Nat.add_assoc,
      monthStart_add_one year (by omega)]
    simp

theorem monthStart_mono (year : Int) : Monotone (monthStart year) := fun _ _ h =>
  Finset.sum_le_sum_of_subset (Finset.Ico_subset_Ico_right h)

/-- A year ends with its twelfth month. -/
theorem monthStart_thirteen (year : Int) : monthStart year 13 = yearLength year := by
  rw [← sum_take_monthLengths year le_rfl, ← sum_monthLengths]
  rfl

/-! ## Dates -/

/-- The month and the day of the month of a day of a year make a date of the calendar. -/
theorem monthDay_valid {inYear : Nat} (h : inYear < yearLength year) {month day : Nat}
    (heq : monthDay 1 (monthLengths (isLeap year)) inYear = (month, day)) :
    IsValid ⟨year, month, day⟩ ∧ monthStart year month + day = inYear + 1 := by
  rw [← sum_monthLengths] at h
  obtain ⟨i, hi, hmonth, hsum, hone, hlength⟩ := monthDay_spec 1 h
  rw [monthLengths_eq, List.length_map, List.length_range'] at hi
  have hmem : monthLength year (1 + i) ∈ (monthLengths (isLeap year))[i]? := by
    rw [monthLengths_eq, List.getElem?_map, List.getElem?_range' hi]
    simp
  simp only [heq] at hmonth hsum hone hlength
  subst hmonth
  rw [sum_take_monthLengths year hi.le] at hsum
  have htwelve : 1 ≤ 1 + i ∧ 1 + i ≤ 12 := by omega
  exact ⟨⟨htwelve, hone, hlength _ hmem⟩, hsum⟩

/-- The date of a day is one of the calendar, as many days behind 1970 as the day. -/
theorem ofDay_spec (day : Int) :
    (ofDay day).IsValid ∧ (ofDay day).days = day - CivilTime.epochDay := by
  obtain ⟨hday, hlt⟩ := yearDay_spec day
  obtain ⟨hvalid, hsum⟩ := monthDay_valid hlt rfl
  refine ⟨hvalid, ?_⟩
  have hdays : (ofDay day).days = yearStart (yearDay day).1 + (monthStart (yearDay day).1
      (ofDay day).month + ((ofDay day).day - 1)) := add_assoc ..
  have hsum : monthStart (yearDay day).1 (ofDay day).month + (ofDay day).day =
      (yearDay day).2 + 1 := hsum
  omega

/-- A date lies before the end of its month, and so before the end of its year. -/
theorem IsValid.days_lt (h : d.IsValid) :
    d.days < yearStart d.year + monthStart d.year (d.month + 1) ∧
      d.days < yearStart (d.year + 1) := by
  obtain ⟨⟨hmonth, htwelve⟩, hone, hlength⟩ := h
  have hend : monthStart d.year (d.month + 1) ≤ yearLength d.year := by
    rw [← monthStart_thirteen]
    exact monthStart_mono d.year (Nat.succ_le_succ htwelve)
  have hmonthEnd : d.days < yearStart d.year + monthStart d.year (d.month + 1) := by
    rw [days, monthStart_add_one d.year hmonth]
    omega
  refine ⟨hmonthEnd, ?_⟩
  rw [yearStart_add_one]
  omega

/-- Of two dates the one with the lower fields comes first. -/
theorem days_lt_days (hd : d.IsValid) (he : e.IsValid) (h : d.year < e.year ∨ d.year = e.year ∧
    (d.month < e.month ∨ d.month = e.month ∧ d.day < e.day)) : d.days < e.days := by
  obtain ⟨hmonth, hyear⟩ := hd.days_lt
  have hone := he.day.1
  rcases h with h | ⟨h, hmonths | ⟨hmonths, hday⟩⟩
  · have hstart : yearStart (d.year + 1) ≤ yearStart e.year := yearStart_mono h
    unfold days at hyear ⊢
    omega
  · have hstart : monthStart e.year (d.month + 1) ≤ monthStart e.year e.month :=
      monthStart_mono e.year hmonths
    unfold days at hmonth ⊢
    rw [h] at hmonth ⊢
    omega
  · unfold days
    rw [h, hmonths]
    omega

/-- The year of a date has at most nine digits unless the date is too far away from 1970. -/
theorem IsValid.natAbs_year_lt (h : d.IsValid) (hlow : -150000000000 ≤ d.days)
    (hhigh : d.days ≤ 150000000000) : d.year.natAbs < 10 ^ 9 := by
  obtain ⟨-, hlt⟩ := h.days_lt
  have hle : yearStart d.year ≤ d.days := by
    have hone := h.day.1
    unfold days
    omega
  rw [yearStart_eq] at hlt hle
  unfold CivilTime.epochDay at hlt hle
  omega

end CivilDate

namespace CivilTime

/-- The date of a civil time. -/
def date (t : CivilTime) : CivilDate := ⟨t.yearsSince1900.toInt + 1900, t.month, t.day⟩

/-- The calendar has the date, and the clock the time of day. -/
structure IsValid (t : CivilTime) : Prop where
  date : t.date.IsValid
  hour : t.hour < 24
  minute : t.minute < 60
  second : t.second < 60

/-- The number of seconds from the start of 1970 to a civil time. -/
def seconds (t : CivilTime) : Int :=
  86400 * t.date.days + (3600 * t.hour + 60 * t.minute + t.second : Nat)

/-- The numbers of a civil time from the year to the second. -/
def fields (t : CivilTime) : List Int :=
  [t.date.year, t.month, t.day, t.hour, t.minute, t.second]

variable {s : Int64} {t u : CivilTime}

theorem fields_injective (h : t.fields = u.fields) : t = u := by
  cases t
  cases u
  simp only [fields, date, List.cons.injEq, Int.add_left_inj, Int32.toInt_inj, Int.natCast_inj,
    and_true] at h
  simpa only [mk.injEq] using h

/-- Of two civil times the one with the lower fields comes first. -/
theorem seconds_lt_of_fields_lt (ht : t.IsValid) (hu : u.IsValid) (h : t.fields < u.fields) :
    t.seconds < u.seconds := by
  obtain ⟨htdate, hthour, htminute, htsecond⟩ := ht
  obtain ⟨hudate, huhour, huminute, husecond⟩ := hu
  have hdays : t.date.days < u.date.days ∨ t.date.days = u.date.days ∧
      (t.hour < u.hour ∨ t.hour = u.hour ∧
        (t.minute < u.minute ∨ t.minute = u.minute ∧ t.second < u.second)) := by
    simp only [fields, List.cons_lt_cons_iff, List.not_lt_nil, and_false, or_false, Int.ofNat_lt,
      Int.natCast_inj] at h
    rcases h with h | ⟨hyear, h | ⟨hmonth, h | ⟨hday, h⟩⟩⟩
    · exact .inl (CivilDate.days_lt_days htdate hudate (.inl h))
    · exact .inl (CivilDate.days_lt_days htdate hudate (.inr ⟨hyear, .inl h⟩))
    · exact .inl (CivilDate.days_lt_days htdate hudate (.inr ⟨hyear, .inr ⟨hmonth, h⟩⟩))
    · have hdate : t.date = u.date := CivilDate.mk.injEq .. ▸ ⟨hyear, hmonth, hday⟩
      exact .inr ⟨congrArg CivilDate.days hdate, h⟩
  unfold seconds
  omega

theorem seconds_lt_seconds_iff (ht : t.IsValid) (hu : u.IsValid) :
    t.seconds < u.seconds ↔ t.fields < u.fields := by
  refine ⟨fun h => ?_, seconds_lt_of_fields_lt ht hu⟩
  rcases lt_trichotomy t.fields u.fields with hlt | heq | hgt
  · exact hlt
  · rw [fields_injective heq] at h
    exact absurd h (lt_irrefl _)
  · exact absurd h (seconds_lt_of_fields_lt hu ht hgt).not_gt

/-- A second has one civil time only. -/
theorem seconds_injective (ht : t.IsValid) (hu : u.IsValid) (h : t.seconds = u.seconds) :
    t = u := by
  have hlt := (seconds_lt_seconds_iff ht hu).not.mp h.not_lt
  have hgt := (seconds_lt_seconds_iff hu ht).not.mp h.not_gt
  exact fields_injective (le_antisymm (not_lt.mp hgt) (not_lt.mp hlt))

/-- The date of a civil time is that of the day of its second, and the time of day what is left of
the second. -/
theorem date_of_ofSecond? (h : ofSecond? s = some t) :
    t.date = CivilDate.ofDay (s.toInt / daySeconds + epochDay) ∧
      (3600 * t.hour + 60 * t.minute + t.second : Nat) = s.toInt % daySeconds ∧
      t.hour < 24 ∧ t.minute < 60 ∧ t.second < 60 := by
  unfold ofSecond? at h
  extract_lets date time years at h
  split at h
  case isFalse => cases h
  case isTrue hyears =>
    obtain rfl := Option.some.inj h
    have hword : (Int32.ofInt years).toInt = years := Int32.toInt_ofInt_of_le hyears.1 hyears.2
    have htime : (time : Int) = s.toInt % daySeconds ∧ time < 86400 := by
      unfold time daySeconds
      omega
    have htotal : 3600 * (time / 3600) + 60 * (time / 60 % 60) + time % 60 = time := by omega
    have hhour : time / 3600 < 24 := by omega
    refine ⟨?_, ?_, hhour, Nat.mod_lt _ (by decide), Nat.mod_lt _ (by decide)⟩
    · rw [CivilTime.date, hword, Int.sub_add_cancel]
    · rw [htotal, htime.1]

/-- The civil time of a second is one of the calendar and the clock, as many seconds behind 1970 as
the second. -/
theorem ofSecond?_spec (h : ofSecond? s = some t) : t.IsValid ∧ t.seconds = s.toInt := by
  obtain ⟨hdate, htime, hhour, hminute, hsecond⟩ := date_of_ofSecond? h
  obtain ⟨hvalid, hdays⟩ := CivilDate.ofDay_spec (s.toInt / daySeconds + epochDay)
  refine ⟨⟨hdate ▸ hvalid, hhour, hminute, hsecond⟩, ?_⟩
  rw [seconds, hdate, hdays, Int.add_sub_cancel, htime]
  exact Int.mul_ediv_add_emod ..

/-- A second has a civil time unless it is too far away from 1970. -/
theorem exists_ofSecond? (hlow : -10 ^ 16 ≤ s.toInt) (hhigh : s.toInt ≤ 10 ^ 16) :
    ∃ t, ofSecond? s = some t ∧ t.date.year.natAbs < 10 ^ 9 := by
  obtain ⟨hvalid, hdays⟩ := CivilDate.ofDay_spec (s.toInt / daySeconds + epochDay)
  rw [Int.add_sub_cancel] at hdays
  have hday : -150000000000 ≤ s.toInt / daySeconds ∧ s.toInt / daySeconds ≤ 150000000000 := by
    unfold daySeconds
    omega
  have hyear := hvalid.natAbs_year_lt (hday.1.trans_eq hdays.symm)
    (hdays.trans_le hday.2)
  obtain ⟨t, ht⟩ : ∃ t, ofSecond? s = some t := by
    refine ⟨_, if_pos ?_⟩
    omega
  exact ⟨t, ht, (date_of_ofSecond? ht).1 ▸ hyear⟩

end CivilTime

end LeveledLog
