import Seismogram.Text.Numeral
import Seismogram.Time.Calendar

/-!
# Instants

An instant of UTC is a day, a second of that day and nanoseconds. A second is drawn out if its
nanoseconds go on from a whole second on. The last second of a minute drawn out is a leap second;
any other second can be drawn out too, but then it shares its civil time with the next one. Instants
cover the years from -262143 to 262142.
-/

namespace Seismogram.Time

def nanosPerSecond : Nat := 1000000000

def secondsPerDay : Nat := 86400

/-- The first day, -262143-01-01. -/
def firstDay : Int := -96465292

/-- The last day, 262142-12-31. -/
def lastDay : Int := 95026236

example : firstDay = Date.toDays ⟨-262143, 1, 1⟩ := by decide

example : lastDay = Date.toDays ⟨262142, 12, 31⟩ := by decide

/-- An instant of UTC; `day` counts from 1970-01-01. -/
structure Instant where
  day : Int
  second : Nat
  nanos : Nat
  firstDay_le : firstDay ≤ day
  le_lastDay : day ≤ lastDay
  second_lt : second < secondsPerDay
  nanos_lt : nanos < 2 * nanosPerSecond
  deriving DecidableEq

namespace Instant

def ofParts? (day : Int) (second nanos : Nat) : Option Instant :=
  if h : firstDay ≤ day ∧ day ≤ lastDay ∧ second < secondsPerDay ∧
      nanos < 2 * nanosPerSecond then
    some ⟨day, second, nanos, h.1, h.2.1, h.2.2.1, h.2.2.2⟩
  else none

@[simp] theorem ofParts?_self (t : Instant) : ofParts? t.day t.second t.nanos = some t := by
  rw [ofParts?, dif_pos ⟨t.firstDay_le, t.le_lastDay, t.second_lt, t.nanos_lt⟩]

theorem ofParts?_eq_some_iff {day : Int} {second nanos : Nat} {t : Instant} :
    ofParts? day second nanos = some t ↔
      t.day = day ∧ t.second = second ∧ t.nanos = nanos := by
  constructor
  · intro h
    unfold ofParts? at h
    split at h
    · cases h
      exact ⟨rfl, rfl, rfl⟩
    · cases h
  · rintro ⟨rfl, rfl, rfl⟩
    exact ofParts?_self t

/-- Whether an instant lies where its second is drawn out. -/
def isLeap (t : Instant) : Bool := decide (nanosPerSecond ≤ t.nanos)

/-- Whether an instant has a civil time of its own: no second is drawn out within a minute. -/
def IsCivil (t : Instant) : Prop := nanosPerSecond ≤ t.nanos → t.second % 60 = 59

instance (t : Instant) : Decidable t.IsCivil := inferInstanceAs (Decidable (_ → _))

def unixSeconds (t : Instant) : Int := t.day * secondsPerDay + t.second

def ofUnix? (seconds : Int) (nanos : Nat) : Option Instant :=
  ofParts? (seconds / secondsPerDay) (seconds % secondsPerDay).toNat nanos

theorem ofUnix?_unixSeconds (t : Instant) : ofUnix? t.unixSeconds t.nanos = some t := by
  have hs := t.second_lt
  have hd : t.unixSeconds / secondsPerDay = t.day := by
    unfold unixSeconds secondsPerDay at *
    omega
  have hm : (t.unixSeconds % secondsPerDay).toNat = t.second := by
    unfold unixSeconds secondsPerDay at *
    omega
  rw [ofUnix?, hd, hm, ofParts?_self]

/-! ### Order -/

/-- A count that grows with time; leap seconds lie between the seconds around them. -/
def ticks (t : Instant) : Int := t.unixSeconds * (2 * nanosPerSecond) + t.nanos

theorem ticks_inj {s t : Instant} : s.ticks = t.ticks ↔ s = t := by
  constructor
  · intro h
    have hs := s.nanos_lt
    have ht := t.nanos_lt
    have hn : s.nanos = t.nanos := by
      unfold ticks nanosPerSecond at *
      omega
    have hu : s.unixSeconds = t.unixSeconds := by
      unfold ticks nanosPerSecond at *
      omega
    have key := ofUnix?_unixSeconds s
    rw [hu, hn, ofUnix?_unixSeconds t] at key
    exact (Option.some.inj key).symm
  · rintro rfl
    rfl

instance : LT Instant := ⟨fun s t => s.ticks < t.ticks⟩

instance : LE Instant := ⟨fun s t => s.ticks ≤ t.ticks⟩

instance (s t : Instant) : Decidable (s < t) := inferInstanceAs (Decidable (s.ticks < t.ticks))

instance (s t : Instant) : Decidable (s ≤ t) := inferInstanceAs (Decidable (s.ticks ≤ t.ticks))

theorem lt_iff {s t : Instant} : s < t ↔ s.ticks < t.ticks := Iff.rfl

theorem le_iff {s t : Instant} : s ≤ t ↔ s.ticks ≤ t.ticks := Iff.rfl

/-! ### Civil time -/

/-- A date with a time of day; second 60 is a leap second. -/
structure Civil where
  date : Date
  hour : Nat
  minute : Nat
  second : Nat
  deriving DecidableEq, Repr

/-- The instant of a civil time with a fraction of its second in nanoseconds. -/
def ofCivil? (c : Civil) (fraction : Nat) : Option Instant :=
  if c.date.isValid && decide (c.hour < 24) && decide (c.minute < 60) && decide (c.second ≤ 60) then
    let (second, nanos) := if c.second = 60 then (59, nanosPerSecond) else (c.second, 0)
    ofParts? c.date.toDays ((c.hour * 60 + c.minute) * 60 + second) (nanos + fraction)
  else none

def civil (t : Instant) : Civil :=
  ⟨Date.ofDays t.day, t.second / 3600, t.second / 60 % 60, t.second % 60 + t.nanos / nanosPerSecond⟩

/-- The nanoseconds of an instant within its second, a leap second counting as one of its own. -/
def fraction (t : Instant) : Nat := t.nanos % nanosPerSecond

/-! ### Shifting -/

/-- The instant a number of nanoseconds after 1970-01-01, not counting leap seconds. -/
def ofUnixNanos? (total : Int) : Option Instant :=
  ofUnix? (total / nanosPerSecond) (total % nanosPerSecond).toNat

/-- The instant a number of nanoseconds later. From within a leap second a shift forward that
leaves it counts the leap second as second 59 passed once more, a shift back by a second or more
counts it as the second after 59, and a shorter shift stays within the two seconds that are
drawn together. -/
def add? (t : Instant) (shift : Int) : Option Instant :=
  let base := t.unixSeconds * nanosPerSecond + t.nanos
  if !t.isLeap then ofUnixNanos? (base + shift)
  else
    let seconds := shift.tdiv nanosPerSecond
    let rest := shift.tmod nanosPerSecond
    if 0 < seconds ∨ (0 < rest ∧ 2 * (nanosPerSecond : Int) ≤ t.nanos + rest) then
      ofUnixNanos? (base - nanosPerSecond + shift)
    else if seconds < 0 then ofUnixNanos? (base + shift)
    else ofParts? t.day t.second (t.nanos + rest).toNat

/-- The instant a number of seconds later, a leap second remaining one. -/
def addSeconds? (t : Instant) (shift : Int) : Option Instant :=
  ofUnix? (t.unixSeconds + shift) t.nanos

/-- The whole microseconds from 1970-01-01 to an instant, the seconds before a leap second included
once. -/
def unixMicros (t : Instant) : Int := t.unixSeconds * 1000000 + (t.nanos / 1000 : Nat)

end Instant
end Seismogram.Time
