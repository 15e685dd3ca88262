/-!
# The civil calendar

Dates of the proleptic Gregorian calendar and the count of days since 1970-01-01. Years are
counted astronomically, so that year zero exists. For counting, a year begins in March and four
hundred years form a cycle of 146097 days. Then the leap day ends a year, the longer year ends
four, and the longer century ends four of them, so that each part is found by one division.

Main statement: every count of days comes back from its date.
-/

namespace Seismogram.Time

structure Date where
  year : Int
  month : Int
  day : Int
  deriving DecidableEq, Repr

namespace Date

def isLeapYear (year : Int) : Bool :=
  decide (year % 4 = 0) && (decide (year % 100 ≠ 0) || decide (year % 400 = 0))

def daysInMonth (year month : Int) : Int :=
  if month = 2 then if isLeapYear year then 29 else 28
  else if month = 4 ∨ month = 6 ∨ month = 9 ∨ month = 11 then 30
  else 31

def isValid (d : Date) : Bool :=
  decide (1 ≤ d.month) && decide (d.month ≤ 12) && decide (1 ≤ d.day) &&
    decide (d.day ≤ daysInMonth d.year d.month)

theorem isLeapYear_iff {year : Int} :
    isLeapYear year = true ↔ year % 4 = 0 ∧ (year % 100 ≠ 0 ∨ year % 400 = 0) := by
  simp [isLeapYear]

theorem isValid_iff {d : Date} :
    d.isValid = true ↔ (1 ≤ d.month ∧ d.month ≤ 12) ∧ 1 ≤ d.day ∧
      d.day ≤ daysInMonth d.year d.month := by
  simp [isValid, and_assoc]

theorem daysInMonth_le (year month : Int) : daysInMonth year month ≤ 31 := by
  rw [daysInMonth]
  split
  · split <;> decide
  · split <;> decide

/-- The days from the first of March of the year zero to 1970-01-01. -/
def daysBeforeUnix : Int := 719468

/-- The days of a year, begun in March, before its month of the given number. -/
def monthStart (month : Int) : Int := (153 * month + 2) / 5

/-- The days of a cycle before its year of the given number. -/
def yearStart (year : Int) : Int := 365 * year + year / 4 - year / 100

/-- The year of a cycle that a day of the cycle belongs to. -/
def yearOfDay (day : Int) : Int :=
  let century := min (day / 36524) 3
  let inCentury := day - 36524 * century
  let group := inCentury / 1461
  let inGroup := inCentury - 1461 * group
  100 * century + 4 * group + min (inGroup / 365) 3

/-- The month, counted from March, that a day of a year belongs to. -/
def monthOfDay (day : Int) : Int := (5 * day + 2) / 153

def toDays (d : Date) : Int :=
  let year := if d.month ≤ 2 then d.year - 1 else d.year
  146097 * (year / 400) + yearStart (year % 400) + monthStart ((d.month + 9) % 12) + (d.day - 1)
    - daysBeforeUnix

/-- The date of a year and month, counted from March, and a day of that month. -/
def ofParts (year month day : Int) : Date :=
  let civil := if month < 10 then month + 3 else month - 9
  ⟨if civil ≤ 2 then year + 1 else year, civil, day⟩

def ofDays (days : Int) : Date :=
  let cycle := (days + daysBeforeUnix) / 146097
  let dayOfCycle := (days + daysBeforeUnix) % 146097
  let year := yearOfDay dayOfCycle
  let dayOfYear := dayOfCycle - yearStart year
  let month := monthOfDay dayOfYear
  ofParts (400 * cycle + year) month (dayOfYear - monthStart month + 1)

/-! ### Days and dates determine each other -/

theorem yearStart_parts {century group year : Int} (hg : 0 ≤ group) (hg' : group < 25)
    (hy : 0 ≤ year) (hy' : year < 4) :
    yearStart (100 * century + 4 * group + year) = 36524 * century + 1461 * group + 365 * year := by
  have h4 : (100 * century + 4 * group + year) / 4 = 25 * century + group := by omega
  have h100 : (100 * century + 4 * group + year) / 100 = century := by omega
  rw [yearStart, h4, h100]
  omega

theorem yearOfDay_bounds {day : Int} (h : 0 ≤ day) (h' : day < 146097) :
    0 ≤ yearOfDay day ∧ yearOfDay day < 400 ∧ yearStart (yearOfDay day) ≤ day ∧
      day - yearStart (yearOfDay day) ≤ 365 := by
  obtain ⟨c, hc⟩ : ∃ c, c = min (day / 36524) 3 := ⟨_, rfl⟩
  obtain ⟨g, hg⟩ : ∃ g, g = (day - 36524 * c) / 1461 := ⟨_, rfl⟩
  obtain ⟨y, hy⟩ : ∃ y, y = min ((day - 36524 * c - 1461 * g) / 365) 3 := ⟨_, rfl⟩
  have hc0 : 0 ≤ c ∧ c < 4 ∧ 0 ≤ day - 36524 * c ∧ day - 36524 * c ≤ 36524 := by omega
  have hg0 : 0 ≤ g ∧ g < 25 := by omega
  have hy0 : 0 ≤ y ∧ y < 4 := by omega
  have hyear : yearOfDay day = 100 * c + 4 * g + y := by
    simp only [yearOfDay, ← hc, ← hg, ← hy]
  rw [hyear, yearStart_parts hg0.1 hg0.2 hy0.1 hy0.2]
  omega

theorem monthOfDay_bounds {day : Int} (h : 0 ≤ day) (h' : day ≤ 365) :
    0 ≤ monthOfDay day ∧ monthOfDay day < 12 ∧ monthStart (monthOfDay day) ≤ day := by
  simp only [monthOfDay, monthStart]
  omega

theorem toDays_ofParts {cycle year month day : Int} (hy : 0 ≤ year) (hy' : year < 400)
    (hm : 0 ≤ month) (hm' : month < 12) :
    (ofParts (400 * cycle + year) month day).toDays
      = 146097 * cycle + yearStart year + monthStart month + (day - 1) - daysBeforeUnix := by
  have hmonth : ((if month < 10 then month + 3 else month - 9) + 9) % 12 = month := by
    split <;> omega
  have hcycle : (400 * cycle + year) / 400 = cycle := by omega
  have hyear : (400 * cycle + year) % 400 = year := by omega
  simp only [ofParts, toDays, hmonth]
  by_cases h : (if month < 10 then month + 3 else month - 9) ≤ 2
  · simp only [h, ↓reduceIte, Int.add_sub_cancel, hcycle, hyear]
  · simp only [h, ↓reduceIte, hcycle, hyear]

theorem toDays_ofDays (days : Int) : (ofDays days).toDays = days := by
  have hy := yearOfDay_bounds (Int.emod_nonneg (days + daysBeforeUnix) (by decide))
    (Int.emod_lt_of_pos (days + daysBeforeUnix) (by decide))
  have hm := monthOfDay_bounds (by omega) hy.2.2.2
  refine (toDays_ofParts hy.1 hy.2.1 hm.1 hm.2.1).trans ?_
  omega

end Date
end Seismogram.Time
