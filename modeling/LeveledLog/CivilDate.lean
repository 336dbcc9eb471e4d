/-!
# Civil dates and times

Days are numbered from the first day of the year one of the Gregorian calendar, extended to
all years. The calendar repeats every 400 years; within such a cycle a day is placed in its
century, its four years and its year, of which only the last of each group is longer. A second
since the start of 1970 has a date and a time of day, and its year has to fit into a word of 32
bits.
-/

namespace LeveledLog

/-- A day of the calendar. -/
structure CivilDate where
  /-- The year, counted through zero to negative years. -/
  year : Int
  /-- The month, from one to twelve. -/
  month : Nat
  /-- The day of the month, from one. -/
  day : Nat
  deriving DecidableEq, Repr

namespace CivilDate

/-- Whether a year has a leap day. -/
def isLeap (year : Int) : Bool := year % 4 == 0 && (year % 100 != 0 || year % 400 == 0)

/-- The lengths of the months of a year. -/
def monthLengths (leap : Bool) : List Nat :=
  [31, if leap then 29 else 28, 31, 30, 31, 30, 31, 31, 30, 31, 30, 31]

/-- The number of days in one year without a leap day. -/
def yearDays : Nat := 365

/-- The number of days in four years, the last of them a leap year. -/
def fourYearDays : Nat := 4 * yearDays + 1

/-- The number of days in a century whose last year is no leap year. -/
def centuryDays : Nat := 25 * fourYearDays - 1

/-- The number of days after which the calendar repeats. -/
def cycleDays : Nat := 4 * centuryDays + 1

/-- The month and the day of the month of the day with the given number, when the months from
`month` on have the given lengths. -/
def monthDay (month : Nat) : List Nat → Nat → Nat × Nat
  | [], day => (month, day + 1)
  | length :: rest, day =>
    if day < length then (month, day + 1) else monthDay (month + 1) rest (day - length)

/-- The year of a day and the number of the day in it. The last year of a group takes the day
by which the group is longer. -/
def yearDay (day : Int) : Int × Nat :=
  let inCycle := (day % cycleDays).toNat
  let century := min (inCycle / centuryDays) 3
  let inCentury := inCycle - century * centuryDays
  let four := inCentury / fourYearDays
  let inFour := inCentury % fourYearDays
  let single := min (inFour / yearDays) 3
  (400 * (day / cycleDays) + (100 * century + 4 * four + single + 1 : Nat),
    inFour - single * yearDays)

/-- The date of a day. -/
def ofDay (day : Int) : CivilDate :=
  let (year, inYear) := yearDay day
  let (month, inMonth) := monthDay 1 (monthLengths (isLeap year)) inYear
  ⟨year, month, inMonth⟩

end CivilDate

/-- A second as the calendar and the clock show it. -/
structure CivilTime where
  yearsSince1900 : Int32
  month : Nat
  day : Nat
  hour : Nat
  minute : Nat
  second : Nat
  deriving DecidableEq, Repr

namespace CivilTime

/-- The number of seconds in a day. -/
def daySeconds : Int := 86400

/-- The number of the first day of 1970. -/
def epochDay : Int := 719162

/-- The civil time of a second since the start of 1970 in universal time. There is none for a year
that does not fit. -/
def ofSecond? (s : Int64) : Option CivilTime :=
  let date := CivilDate.ofDay (s.toInt / daySeconds + epochDay)
  let time := (s.toInt % daySeconds).toNat
  let years := date.year - 1900
  if -0x80000000 ≤ years ∧ years < 0x80000000 then
    some ⟨.ofInt years, date.month, date.day, time / 3600, time / 60 % 60, time % 60⟩
  else none

end CivilTime

end LeveledLog
