import Seismogram.Proofs.Columns.Export

/-!
# The end of the time axis

The time of the last sample is computed twice: in the table of a trace it is rounded to
microseconds and added to the start in whole microseconds, and in the trace itself it is rounded to
nanoseconds, added to the exact start, and cut to microseconds only when the two are compared. So
the table may end a microsecond later or earlier than the trace; and a trace that leaves the leap
second in which it starts ends a whole second later in its table.
-/

namespace Seismogram

open Double Time

/-! ### Exact values -/

/-- The exact value of a finite double. -/
def Double.toRat (x : Float) : ℚ :=
  let size := ratio (magnitude x).1 (magnitude x).2
  (if isNegative x then -1 else 1) * (size.1 / size.2)

def Double.roundAway (x : ℚ) : ℤ := if x < 0 then -round (-x) else round x

theorem Double.roundAway_of_nonneg {x : ℚ} (h : 0 ≤ x) : roundAway x = round x :=
  if_neg (not_lt.2 h)

theorem Double.PositiveFinite.isNegative_eq {x : Float} (h : PositiveFinite x) :
    isNegative x = false := by
  obtain ⟨m, q, value, pos, -⟩ := h.exists_unpack
  have parts := unpack_eq_signed h.finite
  rw [value, signed_of_pos _ pos, signed] at parts
  split at parts
  · cases parts
  · have sign : signOf x = .positive := (Float.Model.UnpackedFloat.finite.inj parts).1.symm
    rw [signOf] at sign
    cases negative : isNegative x with
    | false => rfl
    | true => rw [negative] at sign; cases sign

theorem Double.PositiveFinite.toRat_nonneg {x : Float} (h : PositiveFinite x) : 0 ≤ toRat x := by
  rw [toRat, h.isNegative_eq, if_neg Bool.false_ne_true, one_mul]
  positivity

/-- Of a number that is rounded to thousandths, the whole part is the rounded number or one less. -/
theorem round_sub_ediv (x : ℚ) :
    round x - round (1000 * x) / 1000 =
      if 1 / 2 ≤ x - ((round (1000 * x) / 1000 : ℤ) : ℚ) then 1 else 0 := by
  obtain ⟨least, greatest⟩ := round_eq_iff.1 (rfl : round (1000 * x) = _)
  generalize round (1000 * x) = n at *
  have lower : (1000 * (n / 1000 : ℤ) : ℚ) ≤ n := by
    exact_mod_cast (show 1000 * (n / 1000) ≤ n by omega)
  have upper : (n : ℚ) ≤ 1000 * (n / 1000 : ℤ) + 999 := by
    exact_mod_cast (show n ≤ 1000 * (n / 1000) + 999 by omega)
  split
  · next half =>
    have : round x = n / 1000 + 1 := by
      rw [round_eq_iff]
      push_cast
      constructor <;> linarith
    omega
  · next half =>
    have : round x = n / 1000 := by
      rw [round_eq_iff]
      constructor <;> linarith
    omega

/-! ### Later instants -/

namespace Time.Instant

theorem unixMicros_ofUnixNanos? {total : Int} {i : Instant} (h : ofUnixNanos? total = some i) :
    i.unixMicros = total / 1000 := by
  obtain ⟨day, second, nanos⟩ := ofParts?_eq_some_iff.1 h
  unfold unixMicros unixSeconds
  rw [day, second, nanos]
  unfold secondsPerDay nanosPerSecond
  omega

/-- Whether a shift forward leads out of the leap second in which it starts. -/
def LeavesLeapSecond (i : Instant) (shift : Int) : Prop :=
  i.isLeap = true ∧ 2 * (nanosPerSecond : Int) ≤ i.nanos + shift

instance (i : Instant) (shift : Int) : Decidable (i.LeavesLeapSecond shift) :=
  inferInstanceAs (Decidable (_ ∧ _))

/-- A shift forward leaves a leap second if it has whole seconds or carries into the next one. -/
theorem leavesLeapSecond_iff {i : Instant} {shift : Int} (forward : 0 ≤ shift)
    (leap : i.isLeap = true) :
    i.LeavesLeapSecond shift ↔ 0 < shift.tdiv nanosPerSecond ∨
      (0 < shift.tmod nanosPerSecond ∧
        2 * (nanosPerSecond : Int) ≤ i.nanos + shift.tmod nanosPerSecond) := by
  have bound := i.nanos_lt
  have least : nanosPerSecond ≤ i.nanos := of_decide_eq_true leap
  rw [LeavesLeapSecond, Int.tdiv_eq_ediv_of_nonneg forward, Int.tmod_eq_emod_of_nonneg forward,
    and_iff_right leap]
  unfold nanosPerSecond at *
  omega

theorem unixMicros_add? {i later : Instant} {shift : Int} (forward : 0 ≤ shift)
    (h : i.add? shift = some later) :
    later.unixMicros = i.unixMicros + ((i.nanos % 1000 : Nat) + shift) / 1000 -
      if i.LeavesLeapSecond shift then 1000000 else 0 := by
  cases leap : i.isLeap with
  | false =>
    have stays : ¬ i.LeavesLeapSecond shift := fun leaves =>
      Bool.false_ne_true (leap.symm.trans leaves.1)
    rw [add?, leap, if_pos (by rfl)] at h
    rw [if_neg stays, unixMicros_ofUnixNanos? h]
    unfold unixMicros nanosPerSecond
    omega
  | true =>
    rw [add?, leap, if_neg (by decide)] at h
    simp only [← leavesLeapSecond_iff forward leap] at h
    split at h
    · next leaves =>
      rw [if_pos leaves, unixMicros_ofUnixNanos? h]
      unfold unixMicros nanosPerSecond
      omega
    · next stays =>
      -- Less than a second of the leap second is left, so the shift is shorter than a second.
      have least : nanosPerSecond ≤ i.nanos := of_decide_eq_true leap
      have short : i.nanos + shift < 2 * (nanosPerSecond : Int) :=
        not_le.1 fun long => stays ⟨leap, long⟩
      have within : shift < nanosPerSecond := by omega
      rw [Int.tdiv_eq_zero_of_lt forward within, if_neg (lt_irrefl 0),
        Int.tmod_eq_of_lt forward within] at h
      obtain ⟨day, second, nanos⟩ := ofParts?_eq_some_iff.1 h
      rw [if_neg stays]
      unfold unixMicros unixSeconds
      rw [day, second, nanos]
      omega

end Time.Instant

/-! ### The last sample -/

namespace Trace

variable {t : Trace} {stop : Instant}

/-- The microseconds from the first sample to the last, not rounded. -/
def exactMicros (t : Trace) : ℚ := (t.samples - 1 : Nat) * 1000000 / toRat t.rate

/-- Whether the computations with doubles round the time of the last sample as it would be rounded
in exact numbers. -/
structure RoundsExactly (t : Trace) : Prop where
  micros : toInt64 (ofCount (t.samples - 1) * (1e6 / t.rate)) = roundAway t.exactMicros
  nanos : t.span = roundAway (1000 * t.exactMicros)

theorem exactMicros_nonneg (rate : PositiveFinite t.rate) : 0 ≤ t.exactMicros :=
  div_nonneg (by positivity) rate.toRat_nonneg

theorem roundAway_micros (rate : PositiveFinite t.rate) :
    roundAway t.exactMicros = round t.exactMicros :=
  roundAway_of_nonneg (t.exactMicros_nonneg rate)

theorem RoundsExactly.span_eq (exact : t.RoundsExactly) (rate : PositiveFinite t.rate) :
    t.span = round (1000 * t.exactMicros) := by
  have nonneg := exactMicros_nonneg rate
  rw [exact.nanos, roundAway_of_nonneg (by positivity)]

theorem RoundsExactly.span_nonneg (exact : t.RoundsExactly) (rate : PositiveFinite t.rate) :
    0 ≤ t.span := by
  have nonneg := exactMicros_nonneg rate
  rw [exact.span_eq rate, round_eq]
  positivity

theorem RoundsExactly.unixMicros_stop? (exact : t.RoundsExactly) (rate : PositiveFinite t.rate)
    (ends : t.stop? = some stop) :
    stop.unixMicros = t.start.unixMicros + ((t.start.nanos % 1000 : Nat) + t.span) / 1000 -
      if t.start.LeavesLeapSecond t.span then 1000000 else 0 := by
  rw [stop?] at ends
  split at ends
  · next single =>
    obtain rfl := Option.some.inj ends
    have span : t.span = 0 := by
      rw [exact.span_eq rate, exactMicros, Nat.sub_eq_zero_of_le single]
      simp
    have bound := t.start.nanos_lt
    have stays : ¬ t.start.LeavesLeapSecond 0 := fun leaves => by
      have long := leaves.2
      omega
    rw [span, if_neg stays]
    omega
  · exact Instant.unixMicros_add? (exact.span_nonneg rate) ends

/-- Three samples, a third of a second apart. -/
def threeHertz : Trace :=
  ⟨"GE", "APE", "", "SHZ", (Instant.ofUnix? 1056088749 401000000).get rfl, 3, 3.0, [1, 2, 3]⟩

theorem exportable_threeHertz : threeHertz.Exportable :=
  ⟨rfl, by decide +kernel, by decide +kernel⟩

theorem stop?_threeHertz : threeHertz.stop? = Instant.ofUnix? 1056088750 67666667 := by
  have span : threeHertz.span = 666666667 := by decide +kernel
  rw [stop?, span]
  rfl

theorem exactMicros_threeHertz : threeHertz.exactMicros = 2000000 / 3 := by
  have size : magnitude threeHertz.rate = (3 * 2 ^ 51, -51) := by decide +kernel
  have sign : isNegative threeHertz.rate = false := by decide +kernel
  have scale : Int.toNat 51 = 51 := rfl
  have rate : toRat threeHertz.rate = 3 := by
    rw [toRat, size, sign]
    norm_num [ratio, scale]
  rw [exactMicros, rate]
  norm_num [threeHertz]

theorem roundsExactly_threeHertz : threeHertz.RoundsExactly := by
  have micros : roundAway (2000000 / 3) = 666667 := by
    rw [roundAway_of_nonneg (by norm_num), round_eq_iff]
    norm_num
  have nanos : roundAway (1000 * (2000000 / 3)) = 666666667 := by
    rw [roundAway_of_nonneg (by norm_num), round_eq_iff]
    norm_num
  constructor
  · rw [exactMicros_threeHertz, micros]
    decide +kernel
  · rw [exactMicros_threeHertz, nanos]
    decide +kernel

end Trace

namespace Columns

variable {complaint? : Columns → Option String} {t : Trace} {table : Columns} {stop : Instant}

theorem getLast?_times (made : ofTrace complaint? t = some (.ok table)) (sampled : 0 < t.samples) :
    table.time.values.getLast? = some (some (timeOf t (t.samples - 1))) := by
  obtain ⟨exportable, -, rfl⟩ := eq_of_ofTrace made
  obtain ⟨n, count⟩ := Nat.exists_eq_succ_of_ne_zero sampled.ne'
  simp [ofTimes, exportable.complete, count, List.range_succ]

/-- How far the time axis of a table ends from the end of its trace, if doubles round the time of
the last sample as exact numbers would. The table ends late by a second if the trace leaves the leap
second in which it starts. It ends late by a microsecond if the exact time passes half of its last
microsecond, and early by one if that microsecond is completed by the nanoseconds of the start; both
at once make up for each other. Otherwise the two ends are the same. -/
theorem last_sub_stop (made : ofTrace complaint? t = some (.ok table)) (sampled : 0 < t.samples)
    (ends : t.stop? = some stop) (exact : t.RoundsExactly) :
    let passesHalf := 1 / 2 ≤ t.exactMicros - ((t.span / 1000 : ℤ) : ℚ)
    let completed := 1000 ≤ t.start.nanos % 1000 + t.span % 1000
    let leaves := t.start.LeavesLeapSecond t.span
    ∃ last, table.time.values.getLast? = some (some last) ∧
      last = t.start.unixMicros + roundAway t.exactMicros ∧
      last - stop.unixMicros = (if leaves then 1000000 else 0) + (if passesHalf then 1 else 0) -
        (if completed then 1 else 0) ∧
      (last = stop.unixMicros ↔ ¬ leaves ∧ (passesHalf ↔ completed)) := by
  intro passesHalf completed leaves
  have rate := (eq_of_ofTrace made).1.rate
  have last : timeOf t (t.samples - 1) = t.start.unixMicros + roundAway t.exactMicros := by
    rw [timeOf, exact.micros]
  -- Both ends add whole microseconds to those of the start. The table rounds the rest of the time
  -- to the nearest one; the trace completes one only together with the nanoseconds of the start.
  have shifted := exact.unixMicros_stop? rate ends
  have rounded := round_sub_ediv t.exactMicros
  rw [← exact.span_eq rate] at rounded
  have difference : timeOf t (t.samples - 1) - stop.unixMicros =
      (if leaves then 1000000 else 0) + (if passesHalf then 1 else 0) -
        (if completed then 1 else 0) := by
    have carried : ((t.start.nanos % 1000 : Nat) + t.span) / 1000 - t.span / 1000 =
        if completed then 1 else 0 := by
      split <;> omega
    rw [last, t.roundAway_micros rate, ← rounded, ← carried, shifted]
    ring
  refine ⟨_, getLast?_times made sampled, last, difference, ?_⟩
  rw [← sub_eq_zero, difference]
  split_ifs with late half complete <;> simp_all

theorem exists_ofTrace_threeHertz :
    ∃ table, ofTrace mismatch? .threeHertz = some (.ok table) := by
  have timed : (timesOf? .threeHertz).isSome = true := by decide +kernel
  obtain ⟨times, found⟩ := Option.isSome_iff_exists.1 timed
  exact exists_ofTrace accepts_mismatch? Trace.exportable_threeHertz
    (timesOf?_eq_some_iff.1 found).1

theorem last_sub_stop_threeHertz :
    ∃ table stop last, ofTrace mismatch? .threeHertz = some (.ok table) ∧
      Trace.threeHertz.stop? = some stop ∧
      table.time.values.getLast? = some (some last) ∧ last - stop.unixMicros = 1 := by
  obtain ⟨table, made⟩ := exists_ofTrace_threeHertz
  obtain ⟨stop, ends⟩ : ∃ stop, Trace.threeHertz.stop? = some stop := by
    rw [Trace.stop?_threeHertz]
    exact ⟨_, rfl⟩
  obtain ⟨last, shown, -, difference, -⟩ :=
    last_sub_stop made (by decide) ends Trace.roundsExactly_threeHertz
  have span : Trace.threeHertz.span = 666666667 := by decide +kernel
  rw [span, Trace.exactMicros_threeHertz] at difference
  have stays : ¬ Trace.threeHertz.start.LeavesLeapSecond 666666667 := by decide
  have half : 1 / 2 ≤ 2000000 / 3 - ((666666667 / 1000 : ℤ) : ℚ) := by norm_num
  have short : ¬ 1000 ≤ (Trace.threeHertz.start.nanos : Int) % 1000 + 666666667 % 1000 := by decide
  rw [if_neg stays, if_pos half, if_neg short] at difference
  exact ⟨_, stop, last, made, ends, shown, difference⟩

/-- A table that ends later than its trace. -/
theorem last_ne_stop_threeHertz :
    ∃ table stop, ofTrace mismatch? .threeHertz = some (.ok table) ∧
      0 < Trace.threeHertz.samples ∧
      Trace.threeHertz.stop? = some stop ∧ stop.unixMicros = 1056088750067666 ∧
      table.time.values.getLast? = some (some 1056088750067667) ∧
      table.time.values.getLast? ≠ some (some stop.unixMicros) := by
  obtain ⟨table, made⟩ := exists_ofTrace_threeHertz
  have last : timeOf .threeHertz (Trace.threeHertz.samples - 1) = 1056088750067667 := by
    decide +kernel
  have shown := getLast?_times made (by decide)
  rw [last] at shown
  refine ⟨_, _, made, by decide, Trace.stop?_threeHertz, rfl, shown, ?_⟩
  rw [shown]
  decide

end Columns
end Seismogram
