import TreeExport.Moment

/-!
# Dates and days

`dayNumber_dateOfDay`: the date that lies some days after the start of 1970 does so by the count of
days.  `isDate_dateOfDay`: it is a date of the calendar.  Years are counted from March on in eras of
400 years; `yearOfEra_bounds` places a day of an era in its year.
-/

namespace TreeExport.Moment

/-- A day of an era lies in the year that it is said to lie in: not before the first day of that
year, and before the first day of the next one unless that is the first of another era. -/
theorem yearOfEra_bounds {dayOfEra yearOfEra : Int} (low : 0 ≤ dayOfEra)
    (high : dayOfEra < 146097)
    (year : yearOfEra =
      (dayOfEra - dayOfEra / 1460 + dayOfEra / 36524 - dayOfEra / 146096) / 365) :
    0 ≤ yearOfEra ∧ yearOfEra < 400 ∧
      yearOfEra * 365 + yearOfEra / 4 - yearOfEra / 100 ≤ dayOfEra ∧
      (dayOfEra < (yearOfEra + 1) * 365 + (yearOfEra + 1) / 4 - (yearOfEra + 1) / 100 ∨
        yearOfEra = 399) := by
  -- the centuries before the day, and its year within four years, are few
  have centuries : dayOfEra / 36524 = 0 ∨ dayOfEra / 36524 = 1 ∨ dayOfEra / 36524 = 2 ∨
      dayOfEra / 36524 = 3 ∨ dayOfEra / 36524 = 4 := by omega
  obtain ⟨rest, split⟩ : ∃ rest, yearOfEra = 4 * (dayOfEra / 1460) + rest :=
    ⟨yearOfEra - 4 * (dayOfEra / 1460), by omega⟩
  have cycle : rest = -1 ∨ rest = 0 ∨ rest = 1 ∨ rest = 2 ∨ rest = 3 := by omega
  rcases centuries with h | h | h | h | h <;>
    rcases cycle with rfl | rfl | rfl | rfl | rfl <;> omega

/-- A date of the calendar. -/
structure IsDate (year : Int) (month day : Nat) : Prop where
  month_pos : 0 < month
  month_le : month ≤ 12
  day_pos : 0 < day
  day_le : day ≤ daysInMonth year month

/-- A day by its era, its year within the era and its day within the year, both from March on. -/
structure Places (number era yearOfEra dayOfYear : Int) : Prop where
  sum : number + 719468 =
    era * 146097 + (yearOfEra * 365 + yearOfEra / 4 - yearOfEra / 100 + dayOfYear)
  year_nonneg : 0 ≤ yearOfEra
  year_lt : yearOfEra < 400
  day_nonneg : 0 ≤ dayOfYear
  day_le : dayOfYear ≤ 365
  /-- The last day of a year is there in leap years only. -/
  leap : dayOfYear = 365 → (yearOfEra + 1) % 4 = 0 ∧
    ((yearOfEra + 1) % 100 ≠ 0 ∨ (yearOfEra + 1) % 400 = 0)

/-- The date of a day by its place in an era. -/
def dateOfPlace (era yearOfEra dayOfYear : Int) : Int × Nat × Nat :=
  let shifted := (5 * dayOfYear + 2) / 153
  let month := if shifted < 10 then shifted + 3 else shifted - 9
  (yearOfEra + era * 400 + (if month ≤ 2 then 1 else 0), month.toNat,
    (dayOfYear - (153 * shifted + 2) / 5 + 1).toNat)

theorem exists_places (number : Int) : ∃ era yearOfEra dayOfYear,
    Places number era yearOfEra dayOfYear ∧
      dateOfDay number = dateOfPlace era yearOfEra dayOfYear := by
  obtain ⟨era, same⟩ : ∃ era, era = (number + 719468).fdiv 146097 := ⟨_, rfl⟩
  obtain ⟨dayOfEra, day⟩ : ∃ dayOfEra, dayOfEra = number + 719468 - era * 146097 := ⟨_, rfl⟩
  obtain ⟨yearOfEra, year⟩ : ∃ yearOfEra, yearOfEra =
      (dayOfEra - dayOfEra / 1460 + dayOfEra / 36524 - dayOfEra / 146096) / 365 := ⟨_, rfl⟩
  have divided : (number + 719468).fdiv 146097 = (number + 719468) / 146097 :=
    Int.fdiv_eq_ediv_of_nonneg _ (by decide)
  have low : 0 ≤ dayOfEra := by omega
  have high : dayOfEra < 146097 := by omega
  obtain ⟨nonneg, below, first, last⟩ := yearOfEra_bounds low high year
  -- the count of multiples goes up by one at a multiple, and stays elsewhere
  have fours : (yearOfEra + 1) / 4 = yearOfEra / 4 + if (yearOfEra + 1) % 4 = 0 then 1 else 0 := by
    split <;> omega
  have hundreds : (yearOfEra + 1) / 100 =
      yearOfEra / 100 + if (yearOfEra + 1) % 100 = 0 then 1 else 0 := by
    split <;> omega
  refine ⟨era, yearOfEra,
    dayOfEra - (365 * yearOfEra + yearOfEra / 4 - yearOfEra / 100), ⟨?_, nonneg, below, ?_, ?_, ?_⟩,
    ?_⟩
  · omega
  · omega
  · split at fours <;> split at hundreds <;> omega
  · intro full
    split at fours <;> split at hundreds <;> omega
  · subst same day year
    rfl

theorem dayNumber_dateOfPlace {number era yearOfEra dayOfYear : Int}
    (places : Places number era yearOfEra dayOfYear) :
    dayNumber (dateOfPlace era yearOfEra dayOfYear).1 (dateOfPlace era yearOfEra dayOfYear).2.1
      (dateOfPlace era yearOfEra dayOfYear).2.2 = number := by
  obtain ⟨sum, nonneg, below, first, last, -⟩ := places
  obtain ⟨shifted, same⟩ : ∃ shifted, shifted = (5 * dayOfYear + 2) / 153 := ⟨_, rfl⟩
  have months : 0 ≤ shifted ∧ shifted ≤ 11 := by omega
  have day : 0 ≤ dayOfYear - (153 * shifted + 2) / 5 := by omega
  have whole : (yearOfEra + era * 400).fdiv 400 = era := by
    rw [Int.fdiv_eq_ediv_of_nonneg _ (by decide)]
    omega
  simp only [dateOfPlace, dayNumber, ← same]
  -- January and February are the last months of the year that is counted from March
  by_cases early : shifted < 10
  · have later : ¬ shifted + 3 ≤ 2 := by omega
    have month : ¬ (shifted + 3).toNat ≤ 2 := by omega
    have march : 2 < (shifted + 3).toNat := by omega
    simp only [early, later, month, march, if_true, if_false, Int.add_zero, whole]
    omega
  · have later : shifted - 9 ≤ 2 := by omega
    have month : (shifted - 9).toNat ≤ 2 := by omega
    have march : ¬ 2 < (shifted - 9).toNat := by omega
    have back : yearOfEra + era * 400 + 1 - 1 = yearOfEra + era * 400 := by omega
    simp only [early, later, month, march, if_true, if_false, back, whole]
    omega

theorem isDate_dateOfPlace {number era yearOfEra dayOfYear : Int}
    (places : Places number era yearOfEra dayOfYear) :
    IsDate (dateOfPlace era yearOfEra dayOfYear).1 (dateOfPlace era yearOfEra dayOfYear).2.1
      (dateOfPlace era yearOfEra dayOfYear).2.2 := by
  obtain ⟨-, nonneg, below, first, last, leap⟩ := places
  obtain ⟨shifted, same⟩ : ∃ shifted, shifted = (5 * dayOfYear + 2) / 153 := ⟨_, rfl⟩
  simp only [dateOfPlace, ← same]
  have months : shifted = 0 ∨ shifted = 1 ∨ shifted = 2 ∨ shifted = 3 ∨ shifted = 4 ∨
      shifted = 5 ∨ shifted = 6 ∨ shifted = 7 ∨ shifted = 8 ∨ shifted = 9 ∨ shifted = 10 ∨
      shifted = 11 := by omega
  refine ⟨?_, ?_, by omega, ?_⟩
  · rcases months with rfl | rfl | rfl | rfl | rfl | rfl | rfl | rfl | rfl | rfl | rfl | rfl <;> decide
  · rcases months with rfl | rfl | rfl | rfl | rfl | rfl | rfl | rfl | rfl | rfl | rfl | rfl <;> decide
  · rcases months with rfl | rfl | rfl | rfl | rfl | rfl | rfl | rfl | rfl | rfl | rfl | rfl
    case inr.inr.inr.inr.inr.inr.inr.inr.inr.inr.inr =>
      -- February has a 29th day if the year is a leap year
      have length : daysInMonth (yearOfEra + era * 400 + 1) 2 =
          if isLeapYear (yearOfEra + era * 400 + 1) then 29 else 28 := rfl
      have february : daysInMonth (yearOfEra + era * 400 + 1) 2 = 29 ∨ dayOfYear ≠ 365 := by
        by_cases full : dayOfYear = 365
        · have leaps := leap full
          have isLeap : isLeapYear (yearOfEra + era * 400 + 1) = true := by
            simp only [isLeapYear, Bool.and_eq_true, Bool.or_eq_true, beq_iff_eq, bne_iff_ne]
            omega
          rw [length, isLeap]
          exact .inl rfl
        · exact .inr full
      have least : 28 ≤ daysInMonth (yearOfEra + era * 400 + 1) 2 := by
        rw [length]
        split <;> omega
      show (dayOfYear - (153 * 11 + 2) / 5 + 1).toNat ≤
        daysInMonth (yearOfEra + era * 400 + 1) 2
      omega
    all_goals
      simp [daysInMonth]
      omega

/-- The day that a date is the date of. -/
theorem dayNumber_dateOfDay (number : Int) :
    dayNumber (dateOfDay number).1 (dateOfDay number).2.1 (dateOfDay number).2.2 = number := by
  obtain ⟨_, _, _, places, same⟩ := exists_places number
  rw [same]
  exact dayNumber_dateOfPlace places

theorem isDate_dateOfDay (number : Int) :
    IsDate (dateOfDay number).1 (dateOfDay number).2.1 (dateOfDay number).2.2 := by
  obtain ⟨_, _, _, places, same⟩ := exists_places number
  rw [same]
  exact isDate_dateOfPlace places

end TreeExport.Moment
