import Seismogram.Proofs.Time.Written
import Seismogram.Time.Rfc3339

/-!
# Written timestamps are read back

A timestamp reads back as the instant it was written for, if that has a civil time of its own:
whatever the year is, and also within a leap second. The civil time is scanned in the style it was
written in, and the digits behind the point are as few as are exact.
-/

namespace Seismogram.Time

open Seismogram.Text

attribute [local instance (2000)] instPowNat

namespace Rfc3339

open Scan

theorem separates_style : style.Separates :=
  ⟨by rintro c ⟨⟩; decide, by rintro c ⟨⟩; decide, fun _ => ⟨nofun, nofun⟩⟩

theorem fraction?_fixedDigits {width n : Nat} (some : width ≠ 0) (short : width ≤ 9)
    (small : n < 10 ^ width) :
    fraction? ('.' :: fixedDigits width n ++ ['Z']) = .some (n * 10 ^ (9 - width), ['Z']) := by
  have digits : (fixedDigits width n ++ ['Z']).takeWhile Char.isDigit = fixedDigits width n :=
    takeWhile_isDigit_append (fun c => isDigit_of_mem_fixedDigits) (by rintro c ⟨⟩; rfl)
  have count := length_fixedDigits width n
  have nonempty : (fixedDigits width n).isEmpty = false := by
    rw [List.isEmpty_eq_false_iff, ← List.length_pos_iff, count]
    omega
  rw [List.cons_append, fraction?]
  simp only [digits, nonempty, Bool.false_eq_true, ↓reduceIte, List.drop_left]
  rw [List.take_of_length_le (by omega), nanosOf, count, natOfDigits_fixedDigits,
    Nat.mod_eq_of_lt small]

/-- The nanoseconds of a fraction come back from as few digits as are exact. -/
theorem fraction?_write {nanos : Nat} (small : nanos < nanosPerSecond) :
    fraction? (writeFraction nanos ++ ['Z']) = some (nanos, ['Z']) := by
  rw [nanosPerSecond] at small
  rw [writeFraction]
  split
  · next none =>
    rw [none]
    rfl
  split
  · next milli =>
    have size : nanos / 1000000 * 1000000 = nanos := by omega
    rw [fraction?_fixedDigits (by omega) (by omega) (by omega)]
    exact congrArg (fun n => some (n, ['Z'])) size
  split
  · next micro =>
    have size : nanos / 1000 * 1000 = nanos := by omega
    rw [fraction?_fixedDigits (by omega) (by omega) (by omega)]
    exact congrArg (fun n => some (n, ['Z'])) size
  · rw [fraction?_fixedDigits (by omega) (by omega) (by omega)]
    exact congrArg (fun n => some (n, ['Z'])) (Nat.mul_one nanos)

/-- A timestamp reads back as the instant it was written for. -/
theorem read?_write {t : Instant} (own : t.IsCivil) : read? (write t) = some t := by
  obtain ⟨valid, hours, minutes, seconds⟩ := t.civil_bounds
  have hour : t.civil.hour < 100 := by omega
  have minute : t.civil.minute < 100 := by omega
  have second : t.civil.second < 100 := by omega
  have text : (write t).toList = style.writeDate t.civil.date ++ 'T' ::
      (style.writeTimeOfDay t.civil.hour t.civil.minute t.civil.second ++
        (writeFraction t.fraction ++ ['Z'])) := by
    simp [write, writeCivil, Style.writeDate, Style.writeTimeOfDay, style]
  have marked : style.dates ≠ none := Option.some_ne_none '-'
  have date (rest : List Char) :=
    Style.date?_write separates_style valid (fun bare => absurd bare marked) rest
  have time (rest : List Char) := Style.timeOfDay?_write separates_style hour minute second rest
  have fraction : fraction? (writeFraction t.fraction ++ ['Z']) = some (t.fraction, ['Z']) :=
    fraction?_write (Nat.mod_lt _ (by decide))
  have offset : offset? (skipBlanks ['Z']) = some (0, []) := rfl
  have civil : Instant.ofCivil? ⟨t.civil.date, t.civil.hour, t.civil.minute, t.civil.second⟩
      t.fraction = some t := Instant.ofCivil?_civil own
  have unshifted : t.addSeconds? (-0) = some t := by
    rw [Instant.addSeconds?, Int.neg_zero, Int.add_zero, Instant.ofUnix?_unixSeconds]
  rw [read?, text]
  simp only [date, time, fraction, offset, civil, unshifted, Option.bind_eq_bind, Option.bind_some,
    true_or, ↓reduceIte]
  rfl

end Rfc3339

end Seismogram.Time
