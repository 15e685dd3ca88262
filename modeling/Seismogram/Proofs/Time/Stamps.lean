import Seismogram.Proofs.Time.Written
import Seismogram.Time.Stamp

/-!
# Directory timestamps

A timestamp may be spelled with separators or without, with a final `Z` or without, and blanks may
stand around it. All spellings of a civil time and a fraction are read alike, as the instant of
both. What is written of an instant is one of them, so it is read as the instant without what four
digits of a fraction cannot carry.

Main statements: `read_spelled`, `read_write_floor` and `read_write_leap`.
-/

namespace Seismogram.Time

open Seismogram.Text

attribute [local instance (2000)] instPowNat

/-- An instant rounded down to a whole ten thousandth of a second. -/
def Instant.floorTenThousandth (t : Instant) : Instant :=
  ⟨t.day, t.second, t.nanos / 100000 * 100000, t.firstDay_le, t.le_lastDay, t.second_lt,
    by have := t.nanos_lt; omega⟩

/-- The last ten thousandth of the second of an instant, drawn out. -/
def Instant.lastTenThousandth (t : Instant) : Instant :=
  ⟨t.day, t.second, nanosPerSecond + 999900000, t.firstDay_le, t.le_lastDay, t.second_lt,
    by decide⟩

namespace Instant

theorem civil_floorTenThousandth (t : Instant) : t.floorTenThousandth.civil = t.civil := by
  have second : t.nanos / 100000 * 100000 / 1000000000 = t.nanos / 1000000000 := by omega
  simp only [floorTenThousandth, civil, nanosPerSecond, second]

theorem isLeap_lastTenThousandth (t : Instant) : t.lastTenThousandth.isLeap = true :=
  decide_eq_true (Nat.le_add_right nanosPerSecond 999900000)

theorem fraction_lastTenThousandth (t : Instant) : t.lastTenThousandth.fraction = 999900000 := by
  simp [lastTenThousandth, fraction, nanosPerSecond]

section Leap

variable {t : Instant} (leap : t.isLeap = true)
include leap

theorem nanos_of_isLeap :
    t.nanos = nanosPerSecond + t.fraction ∧ t.fraction < nanosPerSecond := by
  have drawn : nanosPerSecond ≤ t.nanos := of_decide_eq_true leap
  have nanos := t.nanos_lt
  simp only [fraction, nanosPerSecond] at *
  omega

/-- No instant of a leap second is later by a ten thousandth or more. -/
theorem nanos_lt_lastTenThousandth : t.nanos < t.lastTenThousandth.nanos + 100000 := by
  obtain ⟨nanos, small⟩ := nanos_of_isLeap leap
  simp only [lastTenThousandth, nanosPerSecond] at *
  omega

theorem second_civil_of_isLeap (last : t.second % 60 = 59) : t.civil.second = 60 := by
  obtain ⟨nanos, small⟩ := nanos_of_isLeap leap
  rw [nanosPerSecond] at nanos small
  simp only [civil, nanosPerSecond]
  omega

theorem civil_lastTenThousandth : t.lastTenThousandth.civil = t.civil := by
  obtain ⟨nanos, small⟩ := nanos_of_isLeap leap
  have second : t.nanos / 1000000000 = 1 := by
    rw [nanosPerSecond] at nanos small
    omega
  simp only [lastTenThousandth, civil, nanosPerSecond, second]

/-- Rounding down leads to the last ten thousandth from within it only. -/
theorem lastTenThousandth_eq_floor_iff :
    t.lastTenThousandth = t.floorTenThousandth ↔ 999900000 ≤ t.fraction := by
  obtain ⟨nanos, small⟩ := nanos_of_isLeap leap
  rw [nanosPerSecond] at nanos small
  simp only [lastTenThousandth, floorTenThousandth, mk.injEq, nanosPerSecond, true_and]
  omega

theorem lastTenThousandth_le_iff : t.lastTenThousandth ≤ t ↔ 999900000 ≤ t.fraction := by
  obtain ⟨nanos, small⟩ := nanos_of_isLeap leap
  rw [nanosPerSecond] at nanos small
  simp only [le_iff, ticks, unixSeconds, lastTenThousandth, nanosPerSecond]
  omega

end Leap

end Instant

namespace Stamp

open Scan

/-! ### Spellings -/

/-- What a fraction adds to a timestamp: a point and its digits, or nothing. -/
def point (ds : List Char) : List Char := if ds = [] then [] else '.' :: ds

/-- The ways to spell a civil time: one of the two forms, perhaps with `Z`, between blanks. -/
structure Spelling where
  style : Style
  zulu : Bool
  front : List Char
  back : List Char
  form : style = extended ∨ style = compact
  blankFront : ∀ c ∈ front, isBlank c = true
  blankBack : ∀ c ∈ back, isBlank c = true

def Spelling.text (s : Spelling) (c : Instant.Civil) (ds : List Char) : String :=
  String.ofList
    (s.front ++ (s.style.write c ++ point ds ++ (if s.zulu then ['Z'] else []) ++ s.back))

theorem separates_extended : extended.Separates :=
  ⟨by rintro c ⟨⟩; decide, by rintro c ⟨⟩; decide, nofun⟩

theorem separates_compact : compact.Separates := ⟨nofun, nofun, nofun⟩

/-! ### The body of a text -/

/-- Blanks around a text and one final `Z` are passed over. -/
theorem body_between {front cs back : List Char} (zulu : Bool)
    (blankFront : ∀ c ∈ front, isBlank c = true)
    (visible : ∀ c ∈ cs, isBlank c = false) (other : 'Z' ∉ cs)
    (blankBack : ∀ c ∈ back, isBlank c = true) (nonempty : cs ≠ []) :
    body (String.ofList (front ++ (cs ++ (if zulu then ['Z'] else []) ++ back))) = cs := by
  cases zulu with
  | true =>
    have seen : ∀ c ∈ cs ++ ['Z'], isBlank c = false := by
      simp only [List.mem_append, List.mem_singleton]
      rintro c (member | rfl)
      · exact visible c member
      · decide
    simp only [body, ↓reduceIte, trim_between blankFront seen blankBack (by simp),
      String.toList_ofList, List.getLast?_concat, List.dropLast_concat]
  | false =>
    have last : cs.getLast? ≠ some 'Z' := fun found => other (List.mem_of_getLast? found)
    simp only [body, Bool.false_eq_true, ↓reduceIte, List.append_nil,
      trim_between blankFront visible blankBack nonempty, String.toList_ofList, last]

/-! ### Civil times -/

/-- In both forms the characters are digits, `T`, signs and separators. -/
theorem mem_write_form {style : Style} (form : style = extended ∨ style = compact)
    {c : Instant.Civil} {x : Char} (member : x ∈ style.write c) :
    x.isDigit = true ∨ x ∈ ['T', '-', ':', '+'] := by
  rcases Style.mem_write member with digit | rfl | date | time | sign
  · exact .inl digit
  · exact .inr (by decide)
  · rcases form with rfl | rfl
    · cases date
      exact .inr (by decide)
    · cases date
  · rcases form with rfl | rfl
    · cases time
      exact .inr (by decide)
    · cases time
  · rcases sign.1 with rfl | rfl
    · exact .inr (by decide)
    · exact .inr (by decide)

/-- The form is recognised by its separators. -/
theorem form_write {style : Style} (form : style = extended ∨ style = compact)
    {c : Instant.Civil} (year : style = compact → 0 ≤ c.date.year ∧ c.date.year ≤ 9999) :
    (if (style.write c).contains '-' then extended else compact) = style := by
  rcases form with rfl | rfl
  · have separated : '-' ∈ extended.write c := by simp [Style.write, Style.writeDate, extended]
    rw [List.contains_iff_mem.2 separated, if_pos rfl]
  · have bare : '-' ∉ compact.write c := by
      intro member
      rcases Style.mem_write member with digit | tee | date | time | sign
      · cases digit
      · cases tee
      · cases date
      · cases time
      · exact sign.2 (year rfl)
    rw [if_neg (mt List.contains_iff_mem.1 bare)]

theorem civil?_write {style : Style} (form : style = extended ∨ style = compact)
    {c : Instant.Civil} (valid : c.date.isValid = true)
    (year : style = compact → 0 ≤ c.date.year ∧ c.date.year ≤ 9999) (hour : c.hour < 100)
    (minute : c.minute < 100) (second : c.second < 100) : civil? (style.write c) = some c := by
  have separates : style.Separates := by
    rcases form with rfl | rfl
    · exact separates_extended
    · exact separates_compact
  have unseparated : style.dates = none → style = compact := by
    rcases form with rfl | rfl
    · nofun
    · exact fun _ => rfl
  have date (rest : List Char) :=
    Style.date?_write separates valid (fun bare => year (unseparated bare)) rest
  have time := Style.timeOfDay?_write separates hour minute second []
  rw [List.append_nil] at time
  rw [civil?, form_write form year, Style.write]
  simp only [date, char?, time, ↓reduceIte, Option.bind_eq_bind, Option.bind_some]
  rfl

/-! ### Fractions -/

theorem fraction?_point {ds : List Char} (all : ∀ d ∈ ds, d.isDigit = true)
    (short : ds.length ≤ 9) : fraction? (point ds) = some (nanosOf ds) := by
  by_cases empty : ds = []
  · subst empty
    rfl
  · have digits : ds.all Char.isDigit = true := List.all_eq_true.2 all
    have fits : ¬ 9 < ds.length := by omega
    simp [point, fraction?, empty, digits, fits]

/-- Zeros behind the digits of a fraction change nothing. -/
theorem nanosOf_append_zeros {ds : List Char} {zeros : Nat} (short : ds.length + zeros ≤ 9) :
    nanosOf (ds ++ List.replicate zeros '0') = nanosOf ds := by
  have scale : zeros + (9 - (ds.length + zeros)) = 9 - ds.length := by omega
  rw [nanosOf, nanosOf, natOfDigits_append_zeros, List.length_append, List.length_replicate,
    Nat.mul_assoc, ← Nat.pow_add, scale]

theorem utf8ByteSize_digits {ds : List Char} (all : ∀ d ∈ ds, d.isDigit = true) :
    (String.ofList ds).utf8ByteSize = ds.length := by
  induction ds with
  | nil => rfl
  | cons d ds ih =>
    have digit := all d List.mem_cons_self
    have size : d.utf8Size = 1 := by
      rw [Char.isDigit, Bool.and_eq_true, decide_eq_true_eq, decide_eq_true_eq] at digit
      exact Char.utf8Size_eq_one_iff.2 (UInt32.le_trans digit.2 (by decide))
    rw [String.ofList_cons, String.utf8ByteSize_append, String.utf8ByteSize_singleton, size,
      ih fun d member => all d (List.mem_cons_of_mem _ member), List.length_cons, Nat.add_comm]

/-- Anything but one to nine digits behind a point is refused. -/
theorem fraction?_eq_none {rest : List Char}
    (bad : rest = [] ∨ 9 < (String.ofList rest).utf8ByteSize ∨ ∃ c ∈ rest, c.isDigit = false) :
    fraction? ('.' :: rest) = none := by
  rw [fraction?]
  by_cases all : ∀ c ∈ rest, c.isDigit = true
  · rw [utf8ByteSize_digits all] at bad
    rcases bad with empty | long | ⟨c, member, other⟩
    · simp [empty]
    · simp [long]
    · exact absurd (all c member) (by simp [other])
  · simp [all]

/-! ### Reading -/

/-- No digit is taken for a blank, the point or the final `Z`. -/
theorem plain_of_isDigit {x : Char} (digit : x.isDigit = true) :
    isBlank x = false ∧ x ≠ 'Z' ∧ x ≠ '.' := by
  refine ⟨isBlank_of_isDigit digit, ?_, ?_⟩
  · rintro rfl
    cases digit
  · rintro rfl
    cases digit

theorem plain_write {style : Style} (form : style = extended ∨ style = compact)
    {c : Instant.Civil} {x : Char} (member : x ∈ style.write c) :
    isBlank x = false ∧ x ≠ 'Z' ∧ x ≠ '.' := by
  rcases mem_write_form form member with digit | other
  · exact plain_of_isDigit digit
  · simp only [List.mem_cons, List.not_mem_nil, or_false] at other
    rcases other with rfl | rfl | rfl | rfl <;> decide

/-- Without its blanks and its `Z`, a spelling is the civil time and the fraction. -/
theorem body_text (s : Spelling) (c : Instant.Civil) {ds : List Char}
    (all : ∀ d ∈ ds, d.isDigit = true) : body (s.text c ds) = s.style.write c ++ point ds := by
  -- None of the characters is blank or `Z`, so trimming and the final `Z` stop at both ends.
  have plain : ∀ x ∈ s.style.write c ++ point ds, isBlank x = false ∧ x ≠ 'Z' := by
    intro x member
    rcases List.mem_append.1 member with civil | fraction
    · exact ⟨(plain_write s.form civil).1, (plain_write s.form civil).2.1⟩
    · rw [point] at fraction
      split at fraction
      · cases fraction
      · obtain rfl | digit := List.mem_cons.1 fraction
        · decide
        · exact ⟨(plain_of_isDigit (all x digit)).1, (plain_of_isDigit (all x digit)).2.1⟩
  exact body_between s.zulu s.blankFront (fun x member => (plain x member).1)
    (fun member => (plain 'Z' member).2 rfl) s.blankBack (by simp [Style.write_ne_nil])

theorem ne_point {cs : List Char} (pointless : '.' ∉ cs) : ∀ x ∈ cs, decide (x ≠ '.') = true := by
  intro x member
  rw [decide_eq_true_eq]
  rintro rfl
  exact pointless member

/-- The first point divides the civil time from the fraction. -/
theorem split_point {cs : List Char} (pointless : '.' ∉ cs) (ds : List Char) :
    (cs ++ point ds).takeWhile (· ≠ '.') = cs ∧
      (cs ++ point ds).dropWhile (· ≠ '.') = point ds := by
  rw [List.takeWhile_append_of_pos (ne_point pointless),
    List.dropWhile_append_of_pos (ne_point pointless), point]
  split <;> simp

/-- All spellings of a civil time and a fraction are read alike. -/
theorem read?_text (s : Spelling) {c : Instant.Civil} (valid : c.date.isValid = true)
    (year : s.style = compact → 0 ≤ c.date.year ∧ c.date.year ≤ 9999) (hour : c.hour < 100)
    (minute : c.minute < 100) (second : c.second < 100) {ds : List Char}
    (all : ∀ d ∈ ds, d.isDigit = true) (short : ds.length ≤ 9) :
    read? (s.text c ds) = Instant.ofCivil? c (nanosOf ds) := by
  have pointless : '.' ∉ s.style.write c := fun member => (plain_write s.form member).2.2 rfl
  obtain ⟨whole, fraction⟩ := split_point pointless ds
  simp only [read?, body_text s c all, whole, fraction, fraction?_point all short,
    civil?_write s.form valid year hour minute second, Option.bind_eq_bind, Option.bind_some]

theorem read_of_read? {text : String} {t : Instant} (found : read? text = some t) :
    read text = .ok t := by
  unfold read
  rw [found]

/-- A text is refused for its fraction alone, whatever its civil time is. -/
theorem read_of_fraction? {text : String}
    (refused : fraction? ((body text).dropWhile (· ≠ '.')) = none) :
    read text = .error (.timestamp text) := by
  have nothing : read? text = none := by
    simp only [read?, refused, Option.bind_eq_bind, Option.bind_none, Option.bind_fun_none]
  unfold read
  rw [nothing]

theorem nanosOf_lt {ds : List Char} (all : ∀ d ∈ ds, d.isDigit = true) (short : ds.length ≤ 9) :
    nanosOf ds < nanosPerSecond := by
  have scale : 10 ^ ds.length * 10 ^ (9 - ds.length) = nanosPerSecond := by
    rw [← Nat.pow_add, Nat.add_sub_cancel' short]
    rfl
  rw [nanosOf, ← scale]
  exact Nat.mul_lt_mul_of_pos_right (natOfDigits_lt all) (Nat.pow_pos (by omega))

/-- A civil time and a fraction mean one instant in all spellings, however many zeros follow the
fraction, and a text is refused for what stands behind its first point. -/
theorem read_spelled :
    (∀ (c : Instant.Civil) (ds : List Char), c.date.isValid = true →
      0 ≤ c.date.year ∧ c.date.year ≤ 9999 → c.hour < 24 → c.minute < 60 → c.second ≤ 60 →
      (∀ d ∈ ds, d.isDigit = true) → ds.length ≤ 9 →
      ∃ t : Instant, t.civil = c ∧ t.fraction = natOfDigits ds * 10 ^ (9 - ds.length) ∧
        t.isLeap = decide (c.second = 60) ∧
        ∀ (s : Spelling) (zeros : Nat), ds.length + zeros ≤ 9 →
          read (s.text c (ds ++ List.replicate zeros '0')) = .ok t) ∧
    ∀ (text : String) (whole rest : List Char), body text = whole ++ '.' :: rest → '.' ∉ whole →
      rest = [] ∨ 9 < (String.ofList rest).utf8ByteSize ∨ (∃ c ∈ rest, c.isDigit = false) →
      read text = .error (.timestamp text) := by
  constructor
  · intro c ds valid year hour minute second all short
    obtain ⟨t, found⟩ :=
      Instant.exists_ofCivil? valid year hour minute second (nanosOf_lt all short)
    obtain ⟨civil, fraction, leap⟩ := Instant.civil_of_ofCivil? (nanosOf_lt all short) found
    refine ⟨t, civil, fraction, leap, fun s zeros fits => ?_⟩
    have all' : ∀ d ∈ ds ++ List.replicate zeros '0', d.isDigit = true := by
      intro d member
      rcases List.mem_append.1 member with digit | zero
      · exact all d digit
      · rw [List.eq_of_mem_replicate zero]
        rfl
    have short' : (ds ++ List.replicate zeros '0').length ≤ 9 := by simpa using fits
    apply read_of_read?
    rw [read?_text s valid (fun _ => year) (by omega) (by omega) (by omega) all' short',
      nanosOf_append_zeros fits, found]
  · intro text whole rest parts pointless bad
    have here : (body text).dropWhile (· ≠ '.') = '.' :: rest := by
      rw [parts, List.dropWhile_append_of_pos (ne_point pointless)]
      rfl
    apply read_of_fraction?
    rw [here, fraction?_eq_none bad]

/-- The two forms of a leap second with half a second gone, between blanks of several kinds, and one
with a letter that is no digit. -/
theorem read_spelled_newYear :
    (∃ t : Instant, t.civil = ⟨⟨1998, 12, 31⟩, 23, 59, 60⟩ ∧ t.fraction = 500000000 ∧
      t.isLeap = true ∧ read "\u2003 1998-12-31T23:59:60.5Z" = .ok t ∧
      read "19981231T235960.500\u3000\n" = .ok t) ∧
      read " 1998-12-31T23:59:60.5é" = .error (.timestamp " 1998-12-31T23:59:60.5é") := by
  have newYear := read_spelled.1 ⟨⟨1998, 12, 31⟩, 23, 59, 60⟩ ['5'] (by decide) (by decide)
    (by decide) (by decide) (by decide) (List.all_eq_true.1 rfl) (by decide)
  constructor
  · obtain ⟨t, civil, fraction, leap, spelled⟩ := newYear
    refine ⟨t, civil, fraction, leap, ?_, ?_⟩
    · exact spelled ⟨extended, true, ['\u2003', ' '], [], .inl rfl, List.all_eq_true.1 rfl, nofun⟩
        0 (by decide)
    · exact spelled ⟨compact, false, [], ['\u3000', '\n'], .inr rfl, nofun, List.all_eq_true.1 rfl⟩
        2 (by decide)
  · exact read_spelled.2 " 1998-12-31T23:59:60.5é" "1998-12-31T23:59:60".toList ['5', 'é']
      (by decide) (by decide) (.inr (.inr ⟨'é', by decide, by decide⟩))

/-! ### What is written -/

def written : Spelling := ⟨extended, true, [], [], .inl rfl, nofun, nofun⟩

theorem write_eq_text (t : Instant) :
    write t = written.text t.civil (paddedDigits 4 (tenThousandths t)) := by
  have digits := @paddedDigits_ne_nil 4 (tenThousandths t) (by omega)
  simp [write, written, Spelling.text, point, digits, writeCivil, Style.write, Style.writeDate,
    Style.writeTimeOfDay, extended]

/-- What is written of an instant is read as the instant of its civil time and of the ten
thousandths of a second that are written. -/
theorem read_write_of {s t : Instant} (own : s.IsCivil) (civil : s.civil = t.civil)
    (fraction : s.fraction = tenThousandths t * 100000) : read (write t) = .ok s := by
  obtain ⟨valid, hour, minute, second⟩ := t.civil_bounds
  have small : tenThousandths t < 10 ^ 4 := by
    rw [tenThousandths]
    omega
  have all : ∀ d ∈ paddedDigits 4 (tenThousandths t), d.isDigit = true :=
    fun d => isDigit_of_mem_paddedDigits
  have length := length_paddedDigits small
  have nanos : nanosOf (paddedDigits 4 (tenThousandths t)) = s.fraction := by
    rw [nanosOf, length, natOfDigits_paddedDigits, fraction]
  apply read_of_read?
  rw [write_eq_text, read?_text written valid nofun (by omega) (by omega) (by omega) all (by omega),
    nanos, ← civil, Instant.ofCivil?_civil own]

/-- Outside of leap seconds, an instant is read as what is left of it without its nanoseconds below
the ten thousandths, and that is written alike. -/
theorem read_write_floor (t : Instant) (plain : t.isLeap = false) :
    read (write t) = .ok t.floorTenThousandth ∧ write t.floorTenThousandth = write t := by
  have below : t.nanos < 1000000000 := by
    rw [Instant.isLeap, nanosPerSecond, decide_eq_false_iff_not] at plain
    omega
  have civil : t.floorTenThousandth.civil = t.civil := t.civil_floorTenThousandth
  have same : tenThousandths t.floorTenThousandth = tenThousandths t := by
    simp only [tenThousandths, Instant.floorTenThousandth]
    omega
  have fraction : t.floorTenThousandth.fraction = tenThousandths t * 100000 := by
    simp only [tenThousandths, Instant.floorTenThousandth, Instant.fraction, nanosPerSecond]
    omega
  have own : t.floorTenThousandth.IsCivil := by
    simp only [Instant.IsCivil, Instant.floorTenThousandth, nanosPerSecond]
    omega
  constructor
  · exact read_write_of own civil fraction
  · rw [write, write, civil, same]

/-- An instant before year zero whose year has more than four digits. -/
def wideYear : Instant :=
  ⟨-5228373, 43200, 123456, by decide, by decide, by decide, by decide⟩

theorem read_write_floor_wideYear :
    wideYear.isLeap = false ∧ write wideYear = "-12345-03-15T12:00:00.0001Z" ∧
      read (write wideYear) = .ok wideYear.floorTenThousandth ∧
      write wideYear.floorTenThousandth = write wideYear ∧
      wideYear.floorTenThousandth.nanos = 100000 := by
  have plain : wideYear.isLeap = false := by decide
  obtain ⟨found, again⟩ := read_write_floor wideYear plain
  exact ⟨plain, by decide, found, again, by decide⟩

theorem tenThousandths_of_isLeap {t : Instant} (leap : t.isLeap = true) :
    tenThousandths t = 9999 := by
  obtain ⟨nanos, -⟩ := Instant.nanos_of_isLeap leap
  rw [nanosPerSecond] at nanos
  rw [tenThousandths]
  omega

theorem read_write_of_isLeap {t : Instant} (leap : t.isLeap = true) (last : t.second % 60 = 59) :
    read (write t) = .ok t.lastTenThousandth := by
  have fraction : t.lastTenThousandth.fraction = tenThousandths t * 100000 := by
    rw [tenThousandths_of_isLeap leap, Instant.fraction_lastTenThousandth]
  exact read_write_of (fun _ => last) (Instant.civil_lastTenThousandth leap) fraction

/-- Within a leap second the digits are always those of its last ten thousandth, so that one is
read, whatever was written. This rounds down the instants that lie in it and delays all others. -/
theorem read_write_leap (t : Instant) (leap : t.isLeap = true) (last : t.second % 60 = 59) :
    t.civil.second = 60 ∧
      write t = String.ofList (writeCivil t.civil ++ ['.', '9', '9', '9', '9', 'Z']) ∧
      read (write t) = .ok t.lastTenThousandth ∧
      write t.lastTenThousandth = write t ∧
      t.nanos < t.lastTenThousandth.nanos + 100000 ∧
      (t.lastTenThousandth = t.floorTenThousandth ↔ 999900000 ≤ t.fraction) ∧
      (t.lastTenThousandth ≤ t ↔ 999900000 ≤ t.fraction) := by
  have shown : tenThousandths t = 9999 := tenThousandths_of_isLeap leap
  have civil := Instant.civil_lastTenThousandth leap
  have digits : paddedDigits 4 9999 = ['9', '9', '9', '9'] := by decide
  have text : write t = String.ofList (writeCivil t.civil ++ ['.', '9', '9', '9', '9', 'Z']) := by
    simp [write, shown, digits]
  have again : write t.lastTenThousandth = write t := by
    have same := tenThousandths_of_isLeap t.isLeap_lastTenThousandth
    rw [write, write, civil, shown, same]
  refine ⟨?_, text, read_write_of_isLeap leap last, again,
    Instant.nanos_lt_lastTenThousandth leap, ?_, ?_⟩
  · exact Instant.second_civil_of_isLeap leap last
  · exact Instant.lastTenThousandth_eq_floor_iff leap
  · exact Instant.lastTenThousandth_le_iff leap

/-- A quarter of a second into the leap second before 2017. -/
def quarterPast : Instant :=
  ⟨17166, 86399, 1250000000, by decide, by decide, by decide, by decide⟩

/-- An instant that is read late. -/
theorem read_write_leap_quarterPast :
    quarterPast.isLeap = true ∧ write quarterPast = "2016-12-31T23:59:60.9999Z" ∧
      ∃ s : Instant, read (write quarterPast) = .ok s ∧ s.nanos = 1999900000 ∧
        ¬ s ≤ quarterPast := by
  have leap : quarterPast.isLeap = true := by decide
  obtain ⟨-, -, found, -, -, -, late⟩ := read_write_leap quarterPast leap rfl
  refine ⟨leap, by decide, quarterPast.lastTenThousandth, found, rfl, ?_⟩
  rw [late]
  decide

/-- Rounding down does not carry over to leap seconds: the quarter that was written as its last ten
thousandth is read as an instant after it. -/
theorem read_write_quarterPast_late :
    quarterPast.isLeap = true ∧
      read (write quarterPast) ≠ .ok quarterPast.floorTenThousandth ∧
      ∃ s : Instant, read (write quarterPast) = .ok s ∧ quarterPast < s := by
  have leap : quarterPast.isLeap = true := by decide
  have found := read_write_of_isLeap leap rfl
  have early : ¬ 999900000 ≤ quarterPast.fraction := by decide
  refine ⟨leap, ?_, quarterPast.lastTenThousandth, found, ?_⟩
  · intro floored
    have same := Except.ok.inj (found.symm.trans floored)
    exact early ((Instant.lastTenThousandth_eq_floor_iff leap).1 same)
  · exact Int.not_le.1 (mt (Instant.lastTenThousandth_le_iff leap).1 early)

end Stamp

end Seismogram.Time
