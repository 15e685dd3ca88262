import Seismogram.Time.Instant

/-!
# Dates and instants

Days and the dates of the calendar determine each other, and so do instants and civil times with a
fraction of their second, also within a leap second. As for counting, a year begins in March here:
a leap day is then the last day of its year.
-/

namespace Seismogram.Time

namespace Date

/-- A year with a day more than 365 ends with a leap day, which belongs to the next civil year. -/
theorem isLeapYear_of_lastDay {day : Int} (h : 0 ≤ day) (h' : day < 146097)
    (last : day - yearStart (yearOfDay day) = 365) (cycle : Int) :
    isLeapYear (400 * cycle + yearOfDay day + 1) = true := by
  obtain ⟨c, hc⟩ : ∃ c, c = min (day / 36524) 3 := ⟨_, rfl⟩
  obtain ⟨g, hg⟩ : ∃ g, g = (day - 36524 * c) / 1461 := ⟨_, rfl⟩
  obtain ⟨y, hy⟩ : ∃ y, y = min ((day - 36524 * c - 1461 * g) / 365) 3 := ⟨_, rfl⟩
  have hc0 : 0 ≤ c ∧ c < 4 ∧ 0 ≤ day - 36524 * c ∧ day - 36524 * c ≤ 36524 := by omega
  have hg0 : 0 ≤ g ∧ g < 25 := by omega
  have hy0 : 0 ≤ y ∧ y < 4 := by omega
  have hyear : yearOfDay day = 100 * c + 4 * g + y := by
    simp only [yearOfDay, ← hc, ← hg, ← hy]
  rw [hyear, yearStart_parts hg0.1 hg0.2 hy0.1 hy0.2] at last
  have hy3 : y = 3 := by omega
  have century : g = 24 → c = 3 := by omega
  rw [hyear, isLeapYear_iff]
  omega

/-- A day of a year, begun in March, lies within its month. -/
theorem isValid_ofParts {year day : Int} (low : 0 ≤ day) (high : day ≤ 365)
    (leap : day = 365 → isLeapYear (year + 1) = true) :
    (ofParts year (monthOfDay day) (day - monthStart (monthOfDay day) + 1)).isValid = true := by
  obtain ⟨atLeast, below, start⟩ := monthOfDay_bounds low high
  have within : day < monthStart (monthOfDay day + 1) := by
    simp only [monthOfDay, monthStart]
    omega
  generalize monthOfDay day = month at *
  simp only [monthStart] at start within ⊢
  simp only [isValid_iff, ofParts]
  refine ⟨by omega, by omega, ?_⟩
  by_cases february : month = 11
  · subst february
    show day - 337 + 1 ≤ if isLeapYear (year + 1) then 29 else 28
    by_cases last : day = 365
    · rw [leap last, last]
      decide
    · split <;> omega
  · have other : ¬ (if month < 10 then month + 3 else month - 9) = 2 := by omega
    rw [daysInMonth, if_neg other]
    split <;> omega

theorem isValid_ofDays (days : Int) : (ofDays days).isValid = true := by
  have low := Int.emod_nonneg (days + daysBeforeUnix) (b := 146097) (by omega)
  have high := Int.emod_lt_of_pos (days + daysBeforeUnix) (b := 146097) (by omega)
  have year := yearOfDay_bounds low high
  exact isValid_ofParts (by omega) year.2.2.2 fun last => isLeapYear_of_lastDay low high last _

/-- The days of a month, the longest February aside, reach up to the next month. -/
theorem monthOfDay_of_bounds {month day : Int}
    (start : monthStart month ≤ day) (below : day < monthStart (month + 1)) :
    monthOfDay day = month := by
  simp only [monthOfDay, monthStart] at *
  omega

/-- A day of a year, begun in March, is found in that year. -/
theorem yearOfDay_yearStart_add {year day : Int} (low : 0 ≤ year) (high : year < 400)
    (start : 0 ≤ day) (within : day ≤ 365) (cycle : Int)
    (leap : day = 365 → isLeapYear (400 * cycle + year + 1) = true) :
    yearOfDay (yearStart year + day) = year ∧ yearStart year + day < 146097 := by
  obtain ⟨c, hc⟩ : ∃ c, c = year / 100 := ⟨_, rfl⟩
  obtain ⟨g, hg⟩ : ∃ g, g = year % 100 / 4 := ⟨_, rfl⟩
  obtain ⟨y, hy⟩ : ∃ y, y = year % 4 := ⟨_, rfl⟩
  have parts : year = 100 * c + 4 * g + y := by omega
  have hc0 : 0 ≤ c ∧ c ≤ 3 := by omega
  have hg0 : 0 ≤ g ∧ g < 25 := by omega
  have hy0 : 0 ≤ y ∧ y < 4 := by omega
  have last : day = 365 → y = 3 ∧ (g = 24 → c = 3) := by
    intro full
    have rule := isLeapYear_iff.1 (leap full)
    omega
  clear leap hc hg hy
  rw [parts, yearStart_parts hg0.1 hg0.2 hy0.1 hy0.2]
  have century : min ((36524 * c + 1461 * g + 365 * y + day) / 36524) 3 = c := by omega
  have group : (36524 * c + 1461 * g + 365 * y + day - 36524 * c) / 1461 = g := by omega
  have inGroup :
      min ((36524 * c + 1461 * g + 365 * y + day - 36524 * c - 1461 * g) / 365) 3 = y := by omega
  refine ⟨?_, by omega⟩
  simp only [yearOfDay, century, group, inGroup]

/-- The months from March to January in a row. -/
theorem monthStart_succ {month : Int} (low : 0 ≤ month) (high : month < 11) :
    monthStart (month + 1) =
      monthStart month + if month = 1 ∨ month = 3 ∨ month = 6 ∨ month = 8 then 30 else 31 := by
  have table : ∀ n < 11, monthStart ((n : Nat) + 1) =
      monthStart n + if (n : Int) = 1 ∨ (n : Int) = 3 ∨ (n : Int) = 6 ∨ (n : Int) = 8
        then 30 else 31 := by decide
  have row := table month.toNat (by omega)
  rwa [Int.toNat_of_nonneg low] at row

/-- A date lies within its month, counted from March, and the last day of a longest year is a leap
day. -/
theorem bounds_of_isValid {year month day : Int} (low : 0 ≤ month) (high : month < 12)
    (valid : (ofParts year month day).isValid = true) :
    1 ≤ day ∧ monthStart month + (day - 1) < monthStart (month + 1) ∧
      monthStart month + (day - 1) ≤ 365 ∧
      (monthStart month + (day - 1) = 365 → isLeapYear (year + 1) = true) := by
  obtain ⟨-, one, length⟩ := isValid_iff.1 valid
  simp only [ofParts] at one length
  by_cases february : month = 11
  · subst february
    have rule : day ≤ if isLeapYear (year + 1) then 29 else 28 := length
    simp only [monthStart]
    cases leap : isLeapYear (year + 1) with
    | true =>
      rw [leap, if_pos rfl] at rule
      refine ⟨one, by omega, by omega, fun _ => rfl⟩
    | false =>
      rw [leap, if_neg (by decide)] at rule
      refine ⟨one, by omega, by omega, by omega⟩
  · have other : ¬ (if month < 10 then month + 3 else month - 9) = 2 := by omega
    have row := monthStart_succ low (show month < 11 by omega)
    have late : monthStart (month + 1) ≤ 337 := by
      rw [monthStart]
      omega
    rw [daysInMonth, if_neg other] at length
    have inMonth : monthStart month + (day - 1) < monthStart (month + 1) := by
      split at length <;> split at row <;> omega
    refine ⟨one, inMonth, by omega, by omega⟩

/-- Every date of the calendar has a year begun in March and a month counted from there. -/
theorem exists_ofParts {d : Date} (valid : d.isValid = true) :
    ∃ year month, 0 ≤ month ∧ month < 12 ∧ d = ofParts year month d.day := by
  obtain ⟨year, month, day⟩ := d
  obtain ⟨⟨first, last⟩, -⟩ := isValid_iff.1 valid
  simp only at first last ⊢
  by_cases winter : month ≤ 2
  · refine ⟨year - 1, month + 9, by omega, by omega, ?_⟩
    have later : ¬ month + 9 < 10 := by omega
    simp only [ofParts, later, ↓reduceIte, Int.add_sub_cancel, winter, Int.sub_add_cancel]
  · refine ⟨year, month - 3, by omega, by omega, ?_⟩
    have earlier : month - 3 < 10 := by omega
    simp only [ofParts, earlier, ↓reduceIte, Int.sub_add_cancel, winter]

theorem ofDays_toDays {d : Date} (valid : d.isValid = true) : ofDays d.toDays = d := by
  obtain ⟨year, month, low, high, parts⟩ := exists_ofParts valid
  rw [parts] at valid
  obtain ⟨one, inMonth, inYear, leap⟩ := bounds_of_isValid low high valid
  have cycles : 400 * (year / 400) + year % 400 = year := by omega
  have start : 0 ≤ monthStart month := by
    rw [monthStart]
    omega
  have yearLow := Int.emod_nonneg year (b := 400) (by omega)
  have yearHigh := Int.emod_lt_of_pos year (b := 400) (by omega)
  rw [← cycles] at leap
  obtain ⟨found, inCycle⟩ := yearOfDay_yearStart_add yearLow yearHigh
    (show 0 ≤ monthStart month + (d.day - 1) by omega) inYear _ leap
  have days := @toDays_ofParts (year / 400) (year % 400) month d.day yearLow yearHigh low high
  rw [cycles, ← parts] at days
  have yearPos : 0 ≤ yearStart (year % 400) := by
    rw [yearStart]
    omega
  have sum : d.toDays + daysBeforeUnix = 146097 * (year / 400) +
      (yearStart (year % 400) + (monthStart month + (d.day - 1))) := by omega
  have cycle : (d.toDays + daysBeforeUnix) / 146097 = year / 400 := by omega
  have dayOfCycle : (d.toDays + daysBeforeUnix) % 146097 =
      yearStart (year % 400) + (monthStart month + (d.day - 1)) := by omega
  have dayOfYear : yearStart (year % 400) + (monthStart month + (d.day - 1)) -
    yearStart (year % 400) = monthStart month + (d.day - 1) := by omega
  have day : monthStart month + (d.day - 1) - monthStart month + 1 = d.day := by omega
  have month' := @monthOfDay_of_bounds month (monthStart month + (d.day - 1)) (by omega) inMonth
  simp only [ofDays, cycle, dayOfCycle, found, dayOfYear, month', day, cycles]
  exact parts.symm

/-- The years with four digits lie within the years of instants. -/
theorem toDays_bounds {d : Date} (valid : d.isValid = true) (year : 0 ≤ d.year ∧ d.year ≤ 9999) :
    firstDay ≤ d.toDays ∧ d.toDays ≤ lastDay := by
  obtain ⟨month, day⟩ := isValid_iff.1 valid
  have length := daysInMonth_le d.year d.month
  simp only [toDays, firstDay, lastDay, yearStart, monthStart, daysBeforeUnix]
  split <;> omega

end Date

namespace Instant

/-- The instant of a civil time in parts: second 60 is second 59 drawn out by a whole second. -/
theorem ofCivil?_eq_some_iff {c : Civil} {nanos : Nat} {t : Instant} :
    ofCivil? c nanos = some t ↔
      (c.date.isValid = true ∧ c.hour < 24 ∧ c.minute < 60 ∧ c.second ≤ 60) ∧
        t.day = c.date.toDays ∧ t.second = (c.hour * 60 + c.minute) * 60 + min c.second 59 ∧
        t.nanos = c.second / 60 * nanosPerSecond + nanos := by
  have within : (c.date.isValid && decide (c.hour < 24) && decide (c.minute < 60) &&
      decide (c.second ≤ 60)) = true ↔
      c.date.isValid = true ∧ c.hour < 24 ∧ c.minute < 60 ∧ c.second ≤ 60 := by
    simp [and_assoc]
  rw [ofCivil?]
  by_cases written : c.date.isValid = true ∧ c.hour < 24 ∧ c.minute < 60 ∧ c.second ≤ 60
  · rw [if_pos (within.2 written)]
    by_cases sixty : c.second = 60
    · simp [sixty, written, ofParts?_eq_some_iff]
    · have least : min c.second 59 = c.second := by omega
      have none : c.second / 60 = 0 := by omega
      simp [sixty, written, least, none, ofParts?_eq_some_iff]
  · rw [if_neg (mt within.1 written)]
    simp [written]

theorem civil_bounds (t : Instant) :
    t.civil.date.isValid = true ∧ t.civil.hour < 24 ∧ t.civil.minute < 60 ∧
      t.civil.second ≤ 60 := by
  have second := t.second_lt
  have nanos := t.nanos_lt
  simp only [secondsPerDay, nanosPerSecond] at second nanos
  refine ⟨Date.isValid_ofDays t.day, ?_⟩
  simp only [civil, nanosPerSecond]
  omega

/-- An instant comes back from its civil time and its fraction, in a leap second as second 60. -/
theorem ofCivil?_civil {t : Instant} (own : t.IsCivil) : ofCivil? t.civil t.fraction = some t := by
  have second := t.second_lt
  have nanos := t.nanos_lt
  simp only [IsCivil, secondsPerDay, nanosPerSecond] at own second nanos
  rw [ofCivil?_eq_some_iff]
  refine ⟨t.civil_bounds, (Date.toDays_ofDays t.day).symm, ?_⟩
  simp only [civil, fraction, nanosPerSecond]
  omega

/-- A civil time and its fraction come back from their instant. -/
theorem civil_of_ofCivil? {c : Civil} {nanos : Nat} (small : nanos < nanosPerSecond) {t : Instant}
    (found : ofCivil? c nanos = some t) :
    t.civil = c ∧ t.fraction = nanos ∧ t.isLeap = decide (c.second = 60) := by
  obtain ⟨⟨valid, hour, minute, second⟩, day, time, count⟩ := ofCivil?_eq_some_iff.1 found
  rw [nanosPerSecond] at small count
  have date : Date.ofDays t.day = c.date := by rw [day, Date.ofDays_toDays valid]
  have hours : t.second / 3600 = c.hour := by omega
  have minutes : t.second / 60 % 60 = c.minute := by omega
  have seconds : t.second % 60 + t.nanos / 1000000000 = c.second := by omega
  refine ⟨?_, ?_, ?_⟩
  · rw [civil, nanosPerSecond, date, hours, minutes, seconds]
  · rw [fraction, nanosPerSecond]
    omega
  · rw [isLeap, nanosPerSecond, decide_eq_decide]
    omega

/-- Every civil time of the years with four digits is one of an instant. -/
theorem exists_ofCivil? {c : Civil} (valid : c.date.isValid = true)
    (year : 0 ≤ c.date.year ∧ c.date.year ≤ 9999) (hour : c.hour < 24) (minute : c.minute < 60)
    (second : c.second ≤ 60) {nanos : Nat} (small : nanos < nanosPerSecond) :
    ∃ t, ofCivil? c nanos = some t := by
  obtain ⟨low, high⟩ := Date.toDays_bounds valid year
  rw [nanosPerSecond] at small
  have time : (c.hour * 60 + c.minute) * 60 + min c.second 59 < secondsPerDay := by
    rw [secondsPerDay]
    omega
  have count : c.second / 60 * nanosPerSecond + nanos < 2 * nanosPerSecond := by
    rw [nanosPerSecond]
    omega
  exact ⟨⟨_, _, _, low, high, time, count⟩,
    ofCivil?_eq_some_iff.2 ⟨⟨valid, hour, minute, second⟩, rfl, rfl, rfl⟩⟩

end Instant

end Seismogram.Time
