import Seismogram.Proofs.Time.Dates
import Seismogram.Time.Scan

/-!
# Written dates and times of day

What is written of a civil time is scanned back in the same style. A year may need a sign; then it
ends at a separator, which is no digit. All other numbers are written with as many digits as are
read at most, so they end without one.
-/

namespace Seismogram.Time

open Seismogram.Text

attribute [local instance (2000)] instPowNat

namespace Scan

/-- Whether the digits of a number end where these characters begin. -/
def Stops (rest : List Char) : Prop := ∀ c ∈ rest.head?, c.isDigit = false

theorem stops_cons {c : Char} (other : c.isDigit = false) (rest : List Char) :
    Stops (c :: rest) := by
  rintro _ ⟨⟩
  exact other

theorem skipBlanks_digits {ds rest : List Char} (all : ∀ c ∈ ds, c.isDigit = true)
    (nonempty : ds ≠ []) : skipBlanks (ds ++ rest) = ds ++ rest :=
  skipBlanks_append_of_visible (fun d member => isBlank_of_isDigit (all d member)) nonempty rest

theorem paddedDigits_ne_nil {width n : Nat} (pos : width ≠ 0) : paddedDigits width n ≠ [] := by
  rw [paddedDigits]
  split
  · rw [← List.length_pos_iff, length_fixedDigits]
    omega
  · exact Nat.toDigits_ne_nil

theorem length_paddedDigits {width n : Nat} (small : n < 10 ^ width) :
    (paddedDigits width n).length = width := by
  rw [paddedDigits, if_pos small, length_fixedDigits]

theorem field?_write {n : Nat} (small : n < 100) (rest : List Char) :
    field? (paddedDigits 2 n ++ rest) = some (n, rest) := by
  have all : ∀ c ∈ paddedDigits 2 n, c.isDigit = true := fun c => isDigit_of_mem_paddedDigits
  rw [field?, skipBlanks_digits all (paddedDigits_ne_nil (by omega)),
    digits?_append_of_length (by omega) all (length_paddedDigits small), natOfDigits_paddedDigits]

/-- Four digits are read as a year, whatever follows them. -/
theorem year?_write_fixed {year : Int} (plain : 0 ≤ year ∧ year ≤ 9999) (rest : List Char) :
    year? (writeYear year ++ rest) = some (year, rest) := by
  have all : ∀ c ∈ fixedDigits 4 year.toNat, c.isDigit = true := fun c => isDigit_of_mem_fixedDigits
  have length := length_fixedDigits 4 year.toNat
  have nonempty : fixedDigits 4 year.toNat ≠ [] := by
    rw [← List.length_pos_iff, length]
    omega
  have size : (natOfDigits (fixedDigits 4 year.toNat) : Int) = year := by
    rw [natOfDigits_fixedDigits, Nat.mod_eq_of_lt (by omega)]
    omega
  have first : ∀ c ∈ (fixedDigits 4 year.toNat ++ rest).head?, c.isDigit = true := by
    obtain ⟨d, more, digits⟩ := List.exists_cons_of_ne_nil nonempty
    rw [digits] at all ⊢
    rintro c ⟨⟩
    exact all d List.mem_cons_self
  rw [writeYear, if_pos plain, year?, skipBlanks_digits all nonempty]
  split
  · next minus => cases first '-' (by rw [minus]; rfl)
  · next plus => cases first '+' (by rw [plus]; rfl)
  · rw [digits?_append_of_length (by omega) all length, Option.map_some]
    exact congrArg (fun y => some (y, rest)) size

/-- A year is read back with four digits, or with a sign and as many as it has. -/
theorem year?_write (year : Int) {rest : List Char} (stops : Stops rest) :
    year? (writeYear year ++ rest) = some (year, rest) := by
  by_cases plain : 0 ≤ year ∧ year ≤ 9999
  · exact year?_write_fixed plain rest
  · have all : ∀ c ∈ paddedDigits 4 year.natAbs, c.isDigit = true :=
      fun c => isDigit_of_mem_paddedDigits
    have read := digits?_append (paddedDigits 4 year.natAbs ++ rest).length all
      (paddedDigits_ne_nil (by omega)) (by simp) stops
    rw [natOfDigits_paddedDigits] at read
    rw [writeYear, if_neg plain]
    by_cases negative : year < 0
    · have size : -(year.natAbs : Int) = year := by omega
      rw [if_pos negative, List.cons_append, year?, skipBlanks_cons_of_not_blank (by decide)]
      simp only [read, Option.map_some, size]
    · have size : (year.natAbs : Int) = year := by omega
      rw [if_neg negative, List.cons_append, year?, skipBlanks_cons_of_not_blank (by decide)]
      simp only [read, Option.map_some, size]

theorem mem_writeYear {year : Int} {x : Char} (member : x ∈ writeYear year) :
    x.isDigit = true ∨ (x = '-' ∨ x = '+') ∧ ¬ (0 ≤ year ∧ year ≤ 9999) := by
  rw [writeYear] at member
  split at member
  · exact .inl (isDigit_of_mem_fixedDigits member)
  · next signed =>
    obtain rfl | digit := List.mem_cons.1 member
    · refine .inr ⟨?_, signed⟩
      split
      · exact .inl rfl
      · exact .inr rfl
    · exact .inl (isDigit_of_mem_paddedDigits digit)

namespace Style

def writeDate (style : Style) (d : Date) : List Char :=
  writeYear d.year ++ style.dates.toList ++ paddedDigits 2 d.month.toNat ++ style.dates.toList ++
    paddedDigits 2 d.day.toNat

def writeTimeOfDay (style : Style) (hour minute second : Nat) : List Char :=
  paddedDigits 2 hour ++ style.times.toList ++ paddedDigits 2 minute ++ style.times.toList ++
    paddedDigits 2 second

/-- A date and a time of day in a style, separated by `T`. -/
def write (style : Style) (c : Instant.Civil) : List Char :=
  style.writeDate c.date ++ 'T' :: style.writeTimeOfDay c.hour c.minute c.second

/-- Separators are not mistaken for what stands around them, and blanks are not passed over where
no separator follows. -/
structure Separates (style : Style) : Prop where
  dates : ∀ c ∈ style.dates, c.isDigit = false ∧ isBlank c = false
  times : ∀ c ∈ style.times, isBlank c = false
  loose : style.loose = true → style.dates ≠ none ∧ style.times ≠ none

theorem separator?_write {style : Style} {separator : Option Char}
    (visible : ∀ c ∈ separator, isBlank c = false)
    (loose : style.loose = true → separator ≠ none) (rest : List Char) :
    separator? separator (style.blanks (separator.toList ++ rest)) = some rest := by
  cases separator with
  | none =>
    have strict : style.loose = false := by
      cases h : style.loose with
      | false => rfl
      | true => exact absurd rfl (loose h)
    simp [separator?, blanks, strict]
  | some c =>
    have here : skipBlanks (c :: rest) = c :: rest :=
      skipBlanks_cons_of_not_blank (visible c rfl) rest
    cases h : style.loose <;> simp [separator?, char?, blanks, h, here]

variable {style : Style}

theorem write_ne_nil (style : Style) (c : Instant.Civil) : style.write c ≠ [] := by
  simp [write]

/-- The characters of a written civil time: digits, the separators, and the sign of a year that four
digits cannot write. -/
theorem mem_write {c : Instant.Civil} {x : Char} (member : x ∈ style.write c) :
    x.isDigit = true ∨ x = 'T' ∨ x ∈ style.dates ∨ x ∈ style.times ∨
      (x = '-' ∨ x = '+') ∧ ¬ (0 ≤ c.date.year ∧ c.date.year ≤ 9999) := by
  simp only [write, writeDate, writeTimeOfDay, List.mem_append, List.mem_cons,
    Option.mem_toList] at member
  rcases member with ((((year | date) | month) | date) | day) | tee |
    ((((hour | time) | minute) | time) | second)
  · rcases mem_writeYear year with digit | sign
    · exact .inl digit
    · exact .inr (.inr (.inr (.inr sign)))
  · exact .inr (.inr (.inl date))
  · exact .inl (isDigit_of_mem_paddedDigits month)
  · exact .inr (.inr (.inl date))
  · exact .inl (isDigit_of_mem_paddedDigits day)
  · exact .inr (.inl tee)
  · exact .inl (isDigit_of_mem_paddedDigits hour)
  · exact .inr (.inr (.inr (.inl time)))
  · exact .inl (isDigit_of_mem_paddedDigits minute)
  · exact .inr (.inr (.inr (.inl time)))
  · exact .inl (isDigit_of_mem_paddedDigits second)

/-- Years with four digits need no separator behind them. -/
theorem date?_write (separates : style.Separates) {date : Date} (valid : date.isValid = true)
    (year : style.dates = none → 0 ≤ date.year ∧ date.year ≤ 9999) (rest : List Char) :
    style.date? (style.writeDate date ++ rest) = some (date, rest) := by
  have between (more : List Char) :
      separator? style.dates (style.blanks (style.dates.toList ++ more)) = some more :=
    separator?_write (fun c hc => (separates.dates c hc).2) (fun h => (separates.loose h).1) more
  have first (more : List Char) :
      year? (writeYear date.year ++ (style.dates.toList ++ more)) =
        some (date.year, style.dates.toList ++ more) := by
    cases h : style.dates with
    | none => exact year?_write_fixed (year h) _
    | some c => exact year?_write date.year (stops_cons (separates.dates c h).1 more)
  obtain ⟨months, days⟩ := Date.isValid_iff.1 valid
  have length := Date.daysInMonth_le date.year date.month
  have month : (date.month.toNat : Int) = date.month := by omega
  have day : (date.day.toNat : Int) = date.day := by omega
  simp only [writeDate, List.append_assoc, Style.date?, first, between,
    field?_write (show date.month.toNat < 100 by omega),
    field?_write (show date.day.toNat < 100 by omega), Option.bind_eq_bind, Option.bind_some,
    month, day]
  rfl

theorem timeOfDay?_write (separates : style.Separates) {hour minute second : Nat} (h : hour < 100)
    (m : minute < 100) (s : second < 100) (rest : List Char) :
    style.timeOfDay? (style.writeTimeOfDay hour minute second ++ rest) =
      some ((hour, minute, second), rest) := by
  have between (more : List Char) :
      separator? style.times (style.blanks (style.times.toList ++ more)) = some more :=
    separator?_write separates.times (fun h => (separates.loose h).2) more
  simp only [writeTimeOfDay, List.append_assoc, Style.timeOfDay?, field?_write h, between,
    field?_write m, field?_write s, Option.bind_eq_bind, Option.bind_some]
  rfl

end Style
end Scan

end Seismogram.Time
