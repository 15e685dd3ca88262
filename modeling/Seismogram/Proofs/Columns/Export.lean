import Seismogram.Columns
import Seismogram.Proofs.Assembly.Rates

/-!
# Exported traces

Traces are exported all or none, and in their order, as long as their times take no more than 64
bits and the library that makes tables accepts those that are as declared. What a trace needs for
it, as many samples as it declares and a finite rate above zero, every assembled trace has: its
samples were counted, and its rate is a positive count over a finite interval above zero, which does
not come out as zero.
-/

namespace Seismogram

open Double

/-- Whole microseconds are those of the nanoseconds since 1970, rounded down. -/
theorem Time.Instant.unixMicros_eq (i : Time.Instant) :
    i.unixMicros = (i.unixSeconds * 1000000000 + i.nanos) / 1000 := by
  unfold Time.Instant.unixMicros
  omega

/-- What it takes to export a trace. -/
structure Trace.Exportable (t : Trace) : Prop where
  complete : t.data.length = t.samples
  rate : PositiveFinite t.rate

/-- Why a trace is not exported. Its rate is not looked at before its samples are counted. -/
inductive Trace.Refused (t : Trace) : Failure → Prop where
  | miscounted (count : t.data.length ≠ t.samples) :
      Refused t (.sampleCount t.samples t.data.length)
  | rate (complete : t.data.length = t.samples) (rate : ¬ PositiveFinite t.rate) :
      Refused t (.interval (.traceRate t.id t.rate))

def Trace.TimesFit (t : Trace) : Prop :=
  ∀ index < t.data.length, Int64.minValue.toInt ≤ Columns.timeOf t index ∧
    Columns.timeOf t index ≤ Int64.maxValue.toInt

namespace Columns

variable {complaint? : Columns → Option String} {t : Trace} {ts : List Trace} {table : Columns}
  {tables : List Columns} {failure : Failure}

/-- What the table of a trace shows. The first time is the start in whole microseconds, rounded
down also before 1970. -/
structure Shows (t : Trace) (table : Columns) : Prop where
  fields : table.fields =
    [⟨"time", "Timestamp(Microsecond, Some(\"UTC\"))", false⟩, ⟨"sample", "Int32", false⟩]
  rows : table.rows = t.samples
  samples : table.sample.values = t.data.map some
  times : table.time.values.length = t.samples
  complete : none ∉ table.time.values ∧ none ∉ table.sample.values
  first : t.samples ≠ 0 →
    table.time.values.head? =
      some (some ((t.start.unixSeconds * 1000000000 + t.start.nanos) / 1000))
  metadata : table.metadata =
    [("network", t.network), ("station", t.station), ("location", t.location),
      ("channel", t.channel), ("sampling_rate", plain t.rate)]

/-! ### One trace -/

theorem timesOf?_eq_some_iff {times : List Int} : timesOf? t = some times ↔
    t.TimesFit ∧ times = (List.range t.data.length).map (timeOf t) := by
  have fit : ((List.range t.data.length).map (timeOf t)).all fits = true ↔ t.TimesFit := by
    simp [fits, Trace.TimesFit, int64Bounds]
  simp only [timesOf?, Option.ite_none_right_eq_some, fit, Option.some.injEq]
  exact and_congr_right fun _ => eq_comm

theorem asDeclared_ofTimes {times : List Int} (count : times.length = t.data.length) :
    (ofTimes t times).AsDeclared := by
  refine ⟨rfl, ?_, ?_, ?_⟩ <;> simp [ofTimes, count]

theorem ofTrace_of_exportable (exportable : t.Exportable) :
    ofTrace complaint? t = (timesOf? t).map fun times =>
      match complaint? (ofTimes t times) with
      | none => .ok (ofTimes t times)
      | some reason => .error (.table reason) := by
  rw [ofTrace, Trace.verify_eq_ok_iff.2 exportable.complete]
  exact if_neg (positiveFinite_iff.1 exportable.rate)

theorem ofTrace_of_refused (refused : t.Refused failure) :
    ofTrace complaint? t = some (.error failure) := by
  cases refused with
  | miscounted count => rw [ofTrace, Trace.verify, if_neg count]
  | rate complete rate =>
    rw [ofTrace, Trace.verify_eq_ok_iff.2 complete]
    exact if_pos (not_not.1 (positiveFinite_iff.not.1 rate))

theorem exportable_or_refused (t : Trace) : t.Exportable ∨ ∃ failure, t.Refused failure := by
  by_cases complete : t.data.length = t.samples
  · by_cases rate : PositiveFinite t.rate
    · exact .inl ⟨complete, rate⟩
    · exact .inr ⟨_, .rate complete rate⟩
  · exact .inr ⟨_, .miscounted complete⟩

theorem eq_of_ofTrace (made : ofTrace complaint? t = some (.ok table)) :
    t.Exportable ∧ t.TimesFit ∧
      table = ofTimes t ((List.range t.data.length).map (timeOf t)) := by
  obtain exportable | ⟨failure, refused⟩ := exportable_or_refused t
  · rw [ofTrace_of_exportable exportable, Option.map_eq_some_iff] at made
    obtain ⟨times, found, made⟩ := made
    obtain ⟨fit, rfl⟩ := timesOf?_eq_some_iff.1 found
    split at made
    · exact ⟨exportable, fit, (Except.ok.inj made).symm⟩
    · cases made
  · rw [ofTrace_of_refused refused] at made
    cases made

/-- A library that accepts what is as declared makes the table of every exportable trace whose times
fit. -/
theorem exists_ofTrace (accepts : ∀ table, AsDeclared table → complaint? table = none)
    (exportable : t.Exportable) (fit : t.TimesFit) :
    ∃ table, ofTrace complaint? t = some (.ok table) := by
  have declared : (ofTimes t ((List.range t.data.length).map (timeOf t))).AsDeclared :=
    asDeclared_ofTimes (by simp)
  refine ⟨ofTimes t ((List.range t.data.length).map (timeOf t)), ?_⟩
  rw [ofTrace_of_exportable exportable, timesOf?_eq_some_iff.2 ⟨fit, rfl⟩, Option.map_some,
    accepts _ declared]

theorem timeOf_zero (t : Trace) : timeOf t 0 = t.start.unixMicros := by
  rw [timeOf, toInt64_zero_mul, Int.add_zero]

theorem shows_ofTrace (made : ofTrace complaint? t = some (.ok table)) : Shows t table := by
  obtain ⟨exportable, -, rfl⟩ := eq_of_ofTrace made
  have complete := exportable.complete
  refine ⟨rfl, ?_, rfl, ?_, ?_, fun some => ?_, rfl⟩
  · simp [rows, ofTimes, complete]
  · simp [ofTimes, complete]
  · simp [ofTimes]
  · obtain ⟨n, count⟩ := Nat.exists_eq_succ_of_ne_zero some
    simp [ofTimes, complete, count, List.range_succ_eq_map, timeOf_zero,
      Time.Instant.unixMicros_eq]

/-! ### Lists of traces -/

theorem ofTraces_cons_of_ok (made : ofTrace complaint? t = some (.ok table)) (ts : List Trace) :
    ofTraces complaint? (t :: ts) = (ofTraces complaint? ts).map (·.map (table :: ·)) := by
  rw [ofTraces, made]

theorem ofTraces_cons_of_error (failed : ofTrace complaint? t = some (.error failure))
    (ts : List Trace) : ofTraces complaint? (t :: ts) = some (.error failure) := by
  rw [ofTraces, failed]

theorem ofTraces_cons_eq_ok (made : ofTraces complaint? (t :: ts) = some (.ok tables)) :
    ∃ table others, tables = table :: others ∧ ofTrace complaint? t = some (.ok table) ∧
      ofTraces complaint? ts = some (.ok others) := by
  rw [ofTraces] at made
  split at made
  · cases made
  · cases made
  · next table first =>
    obtain ⟨rest, others, made⟩ := Option.map_eq_some_iff.1 made
    cases rest with
    | error failure => cases made
    | ok rest => exact ⟨table, rest, (Except.ok.inj made).symm, first, others⟩

section Accepting

variable (accepts : ∀ table, AsDeclared table → complaint? table = none)
include accepts

theorem ofTraces_append_of_error {front : List Trace} (own : ∀ s ∈ front, s.Exportable)
    (fit : ∀ s ∈ front, s.TimesFit) (refused : t.Refused failure) (back : List Trace) :
    ofTraces complaint? (front ++ t :: back) = some (.error failure) := by
  induction front with
  | nil => exact ofTraces_cons_of_error (ofTrace_of_refused refused) back
  | cons s front ih =>
    rw [List.forall_mem_cons] at own fit
    obtain ⟨table, made⟩ := exists_ofTrace accepts own.1 fit.1
    rw [List.cons_append, ofTraces_cons_of_ok made, ih own.2 fit.2]
    rfl

theorem exists_ofTraces (own : ∀ t ∈ ts, t.Exportable) (fit : ∀ t ∈ ts, t.TimesFit) :
    ∃ tables, ofTraces complaint? ts = some (.ok tables) := by
  induction ts with
  | nil => exact ⟨[], rfl⟩
  | cons t ts ih =>
    rw [List.forall_mem_cons] at own fit
    obtain ⟨table, first⟩ := exists_ofTrace accepts own.1 fit.1
    obtain ⟨tables, made⟩ := ih own.2 fit.2
    rw [ofTraces_cons_of_ok first, made]
    exact ⟨_, rfl⟩

end Accepting

theorem exportable_or_exists_refused (ts : List Trace) :
    (∀ t ∈ ts, t.Exportable) ∨ ∃ front t back failure, ts = front ++ t :: back ∧
      (∀ s ∈ front, s.Exportable) ∧ t.Refused failure := by
  induction ts with
  | nil => exact .inl (List.forall_mem_nil _)
  | cons t ts ih =>
    obtain exportable | ⟨failure, refused⟩ := exportable_or_refused t
    · obtain own | ⟨front, s, back, failure, rfl, before, refused⟩ := ih
      · exact .inl (List.forall_mem_cons.2 ⟨exportable, own⟩)
      · exact .inr ⟨t :: front, s, back, failure, rfl, List.forall_mem_cons.2 ⟨exportable, before⟩,
          refused⟩
    · exact .inr ⟨[], t, ts, failure, rfl, List.forall_mem_nil _, refused⟩

theorem forall₂_shows_ofTraces (made : ofTraces complaint? ts = some (.ok tables)) :
    List.Forall₂ Shows ts tables := by
  induction ts generalizing tables with
  | nil =>
    obtain rfl := Except.ok.inj (Option.some.inj made)
    exact .nil
  | cons t ts ih =>
    obtain ⟨table, others, rfl, first, rest⟩ := ofTraces_cons_eq_ok made
    exact .cons (shows_ofTrace first) (ih rest)

theorem exportable_of_ofTraces (made : ofTraces complaint? ts = some (.ok tables)) :
    ∀ t ∈ ts, t.Exportable := by
  induction ts generalizing tables with
  | nil => exact List.forall_mem_nil _
  | cons t ts ih =>
    obtain ⟨table, others, rfl, first, rest⟩ := ofTraces_cons_eq_ok made
    exact List.forall_mem_cons.2 ⟨(eq_of_ofTrace first).1, ih rest⟩

theorem ofTraces_eq_error_iff (accepts : ∀ table, AsDeclared table → complaint? table = none)
    (fit : ∀ t ∈ ts, t.Exportable → t.TimesFit) :
    ofTraces complaint? ts = some (.error failure) ↔
      ∃ front t back, ts = front ++ t :: back ∧ (∀ s ∈ front, s.Exportable) ∧
        t.Refused failure := by
  -- The traces before the first that is refused are exportable, so their times fit.
  have refusal {front back : List Trace} {t : Trace} {failure : Failure}
      (parts : ts = front ++ t :: back) (before : ∀ s ∈ front, s.Exportable)
      (refused : t.Refused failure) : ofTraces complaint? ts = some (.error failure) := by
    subst parts
    exact ofTraces_append_of_error accepts before
      (fun s listed => fit s (List.mem_append_left _ listed) (before s listed)) refused back
  constructor
  · intro failed
    obtain own | ⟨front, t, back, first, parts, before, refused⟩ := exportable_or_exists_refused ts
    · obtain ⟨tables, made⟩ :=
        exists_ofTraces accepts own fun t listed => fit t listed (own t listed)
      rw [made] at failed
      cases failed
    · rw [refusal parts before refused] at failed
      obtain rfl := Except.error.inj (Option.some.inj failed)
      exact ⟨front, t, back, parts, before, refused⟩
  · rintro ⟨front, t, back, parts, before, refused⟩
    exact refusal parts before refused

end Columns

/-! ### Assembled traces -/

open Assembly

theorem Record.exportable_of_assemble {codec : Codec} {host : ByteOrder} {r : Record} {t : Trace}
    (fits : r.samples < UInt64.size) (assembled : (r.assemble codec host).result = .ok (some t)) :
    t.Exportable := by
  obtain ⟨-, ⟨⟩⟩ | ⟨some, rate, data, resolved, -, complete, same⟩ :=
    result_assemble_eq_ok_iff.1 assembled
  obtain rfl : t = r.trace rate data := Option.some.inj same
  refine ⟨complete, ?_⟩
  cases SamplingInterval.rate_eq_iff.1 resolved with
  | rate _ _ interval finite =>
    exact positiveFinite_div (Nat.pos_of_ne_zero some) fits interval finite

namespace Columns

/-- Traces are exported all or none, if their times fit and the library accepts what is as declared.
A list of traces has tables exactly if each of them holds as many samples as it declares and has a
finite rate above zero. Otherwise there is the failure of the first trace that is refused, and a
wrong count comes before a wrong rate. The tables show the traces in their order, without missing
values. The traces that any assembler reports for any records have tables, the counts of records
being 64-bit numbers. -/
theorem export_allOrNothing {complaint? : Columns → Option String}
    (accepts : ∀ table : Columns, table.AsDeclared → complaint? table = none) :
    (∀ ts : List Trace, (∀ t ∈ ts, t.Exportable → t.TimesFit) →
      ((∃ tables, ofTraces complaint? ts = some (.ok tables)) ↔ ∀ t ∈ ts, t.Exportable) ∧
      ∀ failure, ofTraces complaint? ts = some (.error failure) ↔
        ∃ front t back, ts = front ++ t :: back ∧ (∀ s ∈ front, s.Exportable) ∧
          t.Refused failure) ∧
    (∀ ts tables, ofTraces complaint? ts = some (.ok tables) → List.Forall₂ Shows ts tables) ∧
    ∀ (a : Assembler) (schedule : List Nat) (records : List Record) (report : Report),
      (∀ r ∈ records, r.samples < UInt64.size) →
      (a.assembleUnder schedule records).result = .ok report →
      (∀ t ∈ report.traces, t.TimesFit) →
        ∃ tables, ofTraces complaint? report.traces = some (.ok tables) := by
  refine ⟨fun ts fit => ⟨⟨?_, fun own => ?_⟩, fun failure => ofTraces_eq_error_iff accepts fit⟩,
    fun ts tables => forall₂_shows_ofTraces, ?_⟩
  · rintro ⟨tables, made⟩
    exact exportable_of_ofTraces made
  · exact exists_ofTraces accepts own fun t listed => fit t listed (own t listed)
  · intro a schedule records report fits assembled times
    obtain rfl := a.eq_ofRecords_of_ok assembled
    refine exists_ofTraces accepts (fun t listed => ?_) times
    obtain ⟨r, member, assembled⟩ := Report.exists_of_mem_traces listed
    exact r.exportable_of_assemble (fits r member) assembled

theorem accepts_mismatch? (table : Columns) (declared : table.AsDeclared) :
    mismatch? table = none :=
  if_pos declared

theorem timesFit_inTwoChunks {rate : Float}
    (resolved : Record.inTwoChunks.interval.rate Record.inTwoChunks.samples = .ok rate) :
    (Record.inTwoChunks.trace rate [1, 2, 3, 4]).TimesFit := by
  have timed : ((Record.inTwoChunks.interval.rate Record.inTwoChunks.samples).toOption.any
      fun rate => (timesOf? (Record.inTwoChunks.trace rate [1, 2, 3, 4])).isSome) = true := by
    decide +kernel
  rw [resolved] at timed
  obtain ⟨times, found⟩ := Option.isSome_iff_exists.1 timed
  exact (timesOf?_eq_some_iff.1 found).1

theorem export_inTwoChunks :
    let a : Assembler := ⟨Record.answeringTwo, ⟨.little, .failFast, .sequential⟩⟩
    ∃ report table, (a.assemble [Record.inTwoChunks]).result = .ok report ∧
      (∀ t ∈ report.traces, t.TimesFit) ∧
      ofTraces mismatch? report.traces = some (.ok [table]) ∧
      table.sample.values = [some 1, some 2, some 3, some 4] := by
  intro a
  obtain ⟨-, shown, exported⟩ := export_allOrNothing accepts_mismatch?
  obtain ⟨rate, resolved⟩ := Record.exists_rate_inTwoChunks
  have read : Chunk.ReadAs Record.answeringTwo .little Record.inTwoChunks.chunks [[1, 2], [3, 4]] :=
    .cons (.answered (e := .steim1) rfl rfl rfl) (.cons (.answered (e := .steim2) rfl rfl rfl) .nil)
  have whole : (Record.inTwoChunks.assemble Record.answeringTwo .little).result =
      .ok (some (Record.inTwoChunks.trace rate [1, 2, 3, 4])) :=
    (Record.Assembles.trace (by decide) resolved read rfl).outcome.2
  have reported : Report.ofRecords Record.answeringTwo .little [Record.inTwoChunks] =
      ⟨[Record.inTwoChunks.trace rate [1, 2, 3, 4]], [], 0⟩ := by
    rw [Report.ofRecords_cons, whole]
    rfl
  have assembled : (a.assemble [Record.inTwoChunks]).result =
      .ok ⟨[Record.inTwoChunks.trace rate [1, 2, 3, 4]], [], 0⟩ := by
    rw [Assembler.assemble, a.result_assembleUnder_eq [], reported]
    rfl
  have fit : ∀ t ∈ [Record.inTwoChunks.trace rate [1, 2, 3, 4]], t.TimesFit :=
    List.forall_mem_singleton.2 (timesFit_inTwoChunks resolved)
  obtain ⟨tables, made⟩ := exported a [] [Record.inTwoChunks] _ (by decide) assembled fit
  obtain _ | ⟨shows, ⟨⟩⟩ := shown _ _ made
  exact ⟨_, _, assembled, fit, made, shows.samples⟩

end Columns
end Seismogram
