import SchemaGraph.Instant

/-!
# Days and dates

Each day has one date, and this date gives the day back. The years that begin in March cut the
days into spans of 365 or 366 of them, and the months cut these years, so that a day stands in one
span of either kind; what is left is the day of its month.
-/

namespace SchemaGraph.Date

/-- The date is one of the calendar. -/
def IsValid (date : Date) : Prop :=
  1 ≤ date.month ∧ date.month ≤ 12 ∧ 1 ≤ date.day ∧ date.day ≤ daysInMonth date.year date.month

/-- A valid date is made from its parts. -/
theorem ofParts?_of_isValid {date : Date} (valid : date.IsValid) :
    ofParts? date.year date.month date.day = some date :=
  if_pos valid

/-- The rule of the Gregorian calendar. -/
theorem isLeapYear_iff (year : Int) :
    isLeapYear year = true ↔ year % 4 = 0 ∧ (year % 100 ≠ 0 ∨ year % 400 = 0) := by
  simp [isLeapYear]

/-- A year that begins in March ends with the February of the next one. -/
theorem daysBefore_succ (year : Int) :
    daysBefore (year + 1) = daysBefore year + if isLeapYear (year + 1) then 366 else 365 := by
  have leap := isLeapYear_iff (year + 1)
  unfold daysBefore
  split
  · next isLeap => have := leap.mp isLeap; omega
  · next noLeap => have := mt leap.mpr noLeap; omega

/-- The year that is guessed for a day is at most one year off. -/
theorem daysBefore_guess (day : Int) {guess : Int} (isGuess : guess = 400 * day / 146097) :
    daysBefore (guess - 1) ≤ day ∧ day < daysBefore (guess + 2) := by
  unfold daysBefore
  omega

/-- A day stands in its year. -/
theorem marchYear_spec (day : Int) :
    daysBefore (marchYear day) ≤ day ∧ day < daysBefore (marchYear day + 1) := by
  obtain ⟨low, high⟩ := daysBefore_guess day rfl
  unfold marchYear
  generalize 400 * day / 146097 = guess at low high
  by_cases early : day < daysBefore guess
  · simpa [early] using low
  · by_cases late : daysBefore (guess + 1) ≤ day
    · have next : guess + 1 + 1 = guess + 2 := by omega
      simpa [early, late, next] using high
    · simp only [early, late, if_false]
      omega

/-- The months of a year that begins in March have 30 or 31 days up to the last one. -/
theorem daysBeforeMonth_le_iff {day month : Nat} :
    daysBeforeMonth month ≤ day ↔ month ≤ (5 * day + 2) / 153 := by
  unfold daysBeforeMonth
  omega

/-- The day, the month and the year that begins in March are those that the date is made of. -/
theorem exists_parts (days : Int) :
    ∃ (year : Int) (day month : Nat), days + epoch = daysBefore year + day ∧
      day < 365 + (if isLeapYear (year + 1) then 1 else 0) ∧ month = (5 * day + 2) / 153 ∧
      ofDays days = ⟨if month < 10 then year else year + 1,
        if month < 10 then month + 3 else month - 9, day - daysBeforeMonth month + 1⟩ := by
  obtain ⟨starts, ends⟩ := marchYear_spec (days + epoch)
  rw [daysBefore_succ] at ends
  refine ⟨marchYear (days + epoch), (days + epoch - daysBefore (marchYear (days + epoch))).toNat, _,
    by omega, ?_, rfl, rfl⟩
  split at ends <;> simp_all <;> omega

/-- Within a month of a year that begins in March the days are counted from one. -/
theorem day_le_daysInMonth {year : Int} {day month : Nat}
    (withinYear : day < 365 + (if isLeapYear (year + 1) then 1 else 0))
    (isMonth : month = (5 * day + 2) / 153) :
    month < 12 ∧ day - daysBeforeMonth month + 1 ≤
      daysInMonth (if month < 10 then year else year + 1)
        (if month < 10 then month + 3 else month - 9) := by
  have next : ¬ daysBeforeMonth (month + 1) ≤ day := by
    rw [daysBeforeMonth_le_iff]
    omega
  have lastMonth : month < 12 := by split at withinYear <;> omega
  refine ⟨lastMonth, ?_⟩
  unfold daysBeforeMonth at next ⊢
  obtain early | rfl | rfl : month < 10 ∨ month = 10 ∨ month = 11 := by omega
  · rw [if_pos early, if_pos early, daysInMonth, if_neg (by omega)]
    split <;> omega
  · simp [daysInMonth]
    omega
  · simp [daysInMonth]
    split at withinYear <;> simp_all <;> omega

/-- Every count of days is that of a date in the calendar. -/
theorem isValid_ofDays (days : Int) : (ofDays days).IsValid := by
  obtain ⟨year, day, month, _, withinYear, isMonth, date⟩ := exists_parts days
  obtain ⟨lastMonth, lastDay⟩ := day_le_daysInMonth withinYear isMonth
  have inYear : 1 ≤ (if month < 10 then month + 3 else month - 9) ∧
      (if month < 10 then month + 3 else month - 9) ≤ 12 := by
    split <;> omega
  rw [date]
  exact ⟨inYear.1, inYear.2, Nat.le_add_left _ _, lastDay⟩

/-- The count of days is recovered from the date. -/
theorem toDays_ofDays (days : Int) : (ofDays days).toDays = days := by
  obtain ⟨year, day, month, isDay, withinYear, isMonth, date⟩ := exists_parts days
  have starts := daysBeforeMonth_le_iff.mpr (Nat.le_of_eq isMonth)
  obtain ⟨lastMonth, _⟩ := day_le_daysInMonth withinYear isMonth
  rw [date, toDays]
  by_cases early : month < 10
  · have sameMonth : (month + 3 + 9) % 12 = month := by omega
    have sameYear : ¬ month + 3 ≤ 2 := by omega
    simp only [early, if_true, sameMonth, sameYear, if_false]
    omega
  · have sameMonth : (month - 9 + 9) % 12 = month := by omega
    have nextYear : month - 9 ≤ 2 := by omega
    have sameYear : year + 1 - 1 = year := by omega
    simp only [early, if_false, sameMonth, nextYear, if_true, sameYear]
    omega

/-- The days of instants are those of the years from -262143 to 262142. -/
theorem year_ofDays_inRange {days : Int} (first : -96465292 ≤ days) (last : days ≤ 95026236) :
    -262143 ≤ (ofDays days).year ∧ (ofDays days).year ≤ 262142 := by
  obtain ⟨year, day, month, isDay, withinYear, isMonth, date⟩ := exists_parts days
  have length : day < 366 := by split at withinYear <;> omega
  simp only [daysBefore, epoch] at isDay
  have inside : -262144 ≤ year ∧ year ≤ 262142 := by omega
  -- The first and the last of these years are cut off at the turn of a calendar year.
  have firstMonth : year = -262144 → 10 ≤ month := by rintro rfl; omega
  have lastMonth : year = 262142 → month < 10 := by rintro rfl; omega
  rw [date]
  by_cases early : month < 10
  · simp only [early, if_true]
    omega
  · simp only [early, if_false]
    omega

end SchemaGraph.Date
