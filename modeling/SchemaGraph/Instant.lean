/-!
# Instants of time

An instant counts the seconds since the start of 1970 in UTC and the nanoseconds within the
second. In a leap second the count of nanoseconds goes on past a whole second; that can happen
only at the end of a minute. Dates are those of the Gregorian calendar, continued in both
directions; the year 0 comes before the year 1. To find a date, years are counted from March,
so that the leap day is the last day of a year.
-/

namespace SchemaGraph

/-- A day of the calendar. -/
structure Date where
  year : Int
  month : Nat
  day : Nat
deriving DecidableEq, Repr

namespace Date

/-- The days before a year that begins in March, counted from the year 0. -/
def daysBefore (year : Int) : Int :=
  365 * year + year / 4 - year / 100 + year / 400

/-- The days before a month of a year that begins in March, whose months count from zero. -/
def daysBeforeMonth (month : Nat) : Nat :=
  (153 * month + 2) / 5

/-- The days from March of the year 0 to the start of 1970. -/
def epoch : Int := 719468

/-- The days from the start of 1970 to a date. -/
def toDays (date : Date) : Int :=
  let year := if date.month ≤ 2 then date.year - 1 else date.year
  let month := (date.month + 9) % 12
  daysBefore year + daysBeforeMonth month + date.day - 1 - epoch

/-- The year that begins in March and has a day, which is counted from March of the year 0. -/
def marchYear (day : Int) : Int :=
  let guess := 400 * day / 146097
  if day < daysBefore guess then guess - 1
  else if daysBefore (guess + 1) ≤ day then guess + 1
  else guess

/-- The date at so many days from the start of 1970. -/
def ofDays (days : Int) : Date :=
  let day := days + epoch
  let year := marchYear day
  let dayOfYear := (day - daysBefore year).toNat
  let month := (5 * dayOfYear + 2) / 153
  ⟨if month < 10 then year else year + 1, if month < 10 then month + 3 else month - 9,
    dayOfYear - daysBeforeMonth month + 1⟩

/-- The year has a leap day. -/
def isLeapYear (year : Int) : Bool :=
  year % 4 == 0 && (year % 100 != 0 || year % 400 == 0)

/-- The count of days of a month. -/
def daysInMonth (year : Int) (month : Nat) : Nat :=
  if month = 2 then if isLeapYear year then 29 else 28
  else if month = 4 ∨ month = 6 ∨ month = 9 ∨ month = 11 then 30
  else 31

/-- The date of a year, a month and a day, if there is one. -/
def ofParts? (year : Int) (month day : Nat) : Option Date :=
  if 1 ≤ month ∧ month ≤ 12 ∧ 1 ≤ day ∧ day ≤ daysInMonth year month then
    some ⟨year, month, day⟩
  else none

end Date

/-- An instant of time, in UTC. -/
structure Instant where
  /-- The seconds since the start of 1970. -/
  seconds : Int
  /-- The nanoseconds within the second. -/
  nanoseconds : Nat
  /-- The instant is not before the year -262143 nor after the year 262142. -/
  inRange : -8334601228800 ≤ seconds ∧ seconds ≤ 8210266876799
  /-- Only a second at the end of a minute can be followed by a leap second. -/
  leapAtEnd : nanoseconds < 1000000000 ∨ nanoseconds < 2000000000 ∧ seconds % 60 = 59
deriving DecidableEq, Repr

namespace Instant

/-- The start of 1970. -/
def epoch : Instant :=
  ⟨0, 0, by decide, by decide⟩

/-- The instant of a count of seconds and nanoseconds, if there is one. -/
def ofParts? (seconds : Int) (nanoseconds : Nat) : Option Instant :=
  if inRange : -8334601228800 ≤ seconds ∧ seconds ≤ 8210266876799 then
    if leapAtEnd : nanoseconds < 1000000000 ∨ nanoseconds < 2000000000 ∧ seconds % 60 = 59 then
      some ⟨seconds, nanoseconds, inRange, leapAtEnd⟩
    else none
  else none

end Instant

end SchemaGraph
