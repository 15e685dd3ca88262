import Mathlib.Data.List.Forall2
import Seismogram.Proofs.Assembly.Settling

/-!
# Failing fast

A batch that ends at its first failure says no more and no less than the report of the same batch
when errors are collected: it is that report if nothing fails, and the first failure in it
otherwise. Assembling a batch without settings is the same once more, by a loop of its own.
-/

namespace Seismogram.Assembly

open Report

namespace Assembler

/-- What a batch does that fails fast is determined by the report of the batch when errors are
collected, whoever does the work: it succeeds exactly if no record of the report failed, and then
with the same report; otherwise it fails with position, channel and reason of the first failure of
the report. One after another it makes the calls of the collecting batch up to that record, in the
same order, and none for a later one. -/
theorem failFast_determined (codec : Codec) (host : ByteOrder) (execution execution' : Execution)
    (schedule schedule' : List Nat) (records : List Record) :
    let collecting (execution : Execution) : Assembler :=
      ⟨codec, ⟨host, .collectErrors, execution⟩⟩
    let failing (execution : Execution) : Assembler := ⟨codec, ⟨host, .failFast, execution⟩⟩
    let calls (r : Record) := Event.calls (r.assemble codec host).events
    ∃ report, ((collecting execution).assembleUnder schedule records).result = .ok report ∧
      (∀ r, ((failing execution').assembleUnder schedule' records).result = .ok r ↔
        report.failures = [] ∧ r = report) ∧
      (∀ failure, ((failing execution').assembleUnder schedule' records).result = .error failure ↔
        ∃ f, report.failures.head? = some f ∧
          failure = .record f.index f.channel f.failure) ∧
      Event.calls ((collecting .sequential).assemble records).events = records.flatMap calls ∧
      Event.calls ((failing .sequential).assemble records).events =
        (records.take (report.attempted records.length)).flatMap calls := by
  intro collecting failing calls
  have failed : ((failing execution').assembleUnder schedule' records).result =
      (ofRecords codec host records).orFirstFailure := result_assembleUnder_eq ..
  refine ⟨ofRecords codec host records, result_assembleUnder_eq .., fun r => ?_, fun failure => ?_,
    ?_, ?_⟩
  · rw [failed, orFirstFailure_eq_ok_iff]
  · rw [failed, orFirstFailure_eq_error_iff]
  · rw [assemble, calls_assembleUnder]
    exact calls_attemptAll _ records
  · rw [assemble, calls_assembleUnder]
    exact calls_attemptUntilFailure _ 0 records

/-- The cut off frame of the mixed batch is the last thing the codec is called for. -/
theorem failFast_determined_mixed :
    let failing (execution : Execution) : Assembler :=
      ⟨.native .little, ⟨.little, .failFast, execution⟩⟩
    (∃ failure, ((failing (.parallel 2)).assembleUnder [1, 0, 1] mixed).result =
        .error (.record 1 "GE.APE.00.SHZ" failure)) ∧
      (Event.calls ((failing .sequential).assemble mixed).events).length = 2 := by
  intro failing
  obtain ⟨report, collected, -, failed, -, stopped⟩ := failFast_determined (.native .little) .little
    .sequential (.parallel 2) [] [1, 0, 1] mixed
  obtain ⟨own, assembled, -, failures, -⟩ := exists_report_mixed
  obtain rfl : report = own := Except.ok.inj (collected.symm.trans assembled)
  have nonempty : report.failures ≠ [] := fun none => by
    rw [none] at failures
    cases failures
  obtain ⟨f, others, listed⟩ := List.exists_cons_of_ne_nil nonempty
  rw [listed] at failures
  obtain ⟨index, channel⟩ := Prod.mk.inj (List.cons.inj failures).1
  have first : report.failures.head? = some f := by rw [listed]; rfl
  have attempted : report.attempted mixed.length = 2 := by
    rw [Report.attempted, listed]
    exact congrArg (· + 1) index
  constructor
  · refine ⟨f.failure, (failed _).2 ⟨f, first, ?_⟩⟩
    rw [index, channel]
  · rw [stopped, attempted]
    decide +kernel

end Assembler

section Traces

variable (codec : Codec) (host : ByteOrder)

theorem result_tracesFrom (index : Nat) (records : List Record) :
    (tracesFrom codec host index records).result =
      ((ofRecords codec host records).behind index).orFirstFailure.map Report.traces := by
  induction records generalizing index with
  | nil => rfl
  | cons r rest ih =>
    rw [tracesFrom, ofRecords, List.map_cons]
    cases (r.assemble codec host).result with
    | error failure =>
      rw [behind_ofAttempts_failure]
      rfl
    | ok trace =>
      dsimp only
      rw [ih, ofRecords]
      cases trace with
      | none =>
        rw [behind_ofAttempts_skipped]
        obtain ⟨traces, _ | ⟨f, failures⟩, skipped⟩ := behind (index + 1) (ofAttempts _) <;> rfl
      | some t =>
        rw [behind_ofAttempts_trace]
        obtain ⟨traces, _ | ⟨f, failures⟩, skipped⟩ := behind (index + 1) (ofAttempts _) <;> rfl

theorem calls_tracesFrom (settings : Settings) (index : Nat) (records : List Record) :
    Event.calls (tracesFrom codec settings.host index records).events =
      Event.calls (Assembler.attemptUntilFailure ⟨codec, settings⟩ index records).events := by
  induction records generalizing index with
  | nil => rfl
  | cons r rest ih =>
    rw [tracesFrom, Assembler.attemptUntilFailure, Assembler.record]
    cases (r.assemble codec settings.host).result with
    | error failure => exact ((Event.calls_append ..).trans (List.append_nil _)).symm
    | ok trace => simp only [Event.calls_append, ih]

/-- If nothing fails there is one trace for each record with samples, in order. -/
theorem forall₂_traces_ofRecords {records : List Record}
    (complete : (ofRecords codec host records).failures = []) :
    List.Forall₂ (fun r t => (r.assemble codec host).result = .ok (some t))
      (records.filter fun r => !r.isKeepAlive) (ofRecords codec host records).traces := by
  induction records with
  | nil => exact .nil
  | cons r rest ih =>
    rw [ofRecords_cons] at complete ⊢
    obtain ⟨first, later⟩ := List.append_eq_nil_iff.1 complete
    have others := ih (List.map_eq_nil_iff.1 later)
    have keepAlive : (r.assemble codec host).result = .ok none ↔ r.isKeepAlive = true :=
      Record.result_assemble_eq_none_iff.trans Record.isKeepAlive_iff.symm
    cases attempt : (r.assemble codec host).result with
    | error failure =>
      rw [attempt] at first
      cases first
    | ok assembled =>
      rw [attempt] at keepAlive
      cases assembled with
      | none =>
        rw [List.filter_cons_of_neg (by simp [keepAlive.1 rfl])]
        exact others
      | some t =>
        have samples : r.isKeepAlive ≠ true := fun h => by cases keepAlive.2 h
        rw [List.filter_cons_of_pos (by simp [samples])]
        exact .cons attempt others

/-- Assembling a batch without settings and assembling it under settings that fail fast agree,
whoever does the work under the settings. Both succeed with the same traces, one for each record
with samples, in order, which carries the codes, the start and the number of samples of its record;
or both fail with the same position, channel and reason. One after another they make the same
calls in the same order. -/
theorem traces_agree (execution : Execution) (schedule : List Nat) (records : List Record) :
    let failing (execution : Execution) : Assembler := ⟨codec, ⟨host, .failFast, execution⟩⟩
    (∀ ts, (traces codec host records).result = .ok ts ↔
        ∃ report, ((failing execution).assembleUnder schedule records).result = .ok report ∧
          report.traces = ts) ∧
      ((∃ ts, (traces codec host records).result = .ok ts ∧
          ts.length = (records.filter fun r => !r.isKeepAlive).length ∧
          List.Forall₂ (fun r t => (r.assemble codec host).result = .ok (some t) ∧
            t.id = r.channel.text ∧ t.start = r.start ∧ t.samples = r.samples)
            (records.filter fun r => !r.isKeepAlive) ts) ∨
        ∃ index channel failure,
          (traces codec host records).result = .error (.record index channel failure) ∧
          ((failing execution).assembleUnder schedule records).result =
            .error (.record index channel failure)) ∧
      Event.calls (traces codec host records).events =
        Event.calls ((failing .sequential).assemble records).events := by
  intro failing
  have under : ((failing execution).assembleUnder schedule records).result =
      (ofRecords codec host records).orFirstFailure := Assembler.result_assembleUnder_eq ..
  have without : (traces codec host records).result =
      (ofRecords codec host records).orFirstFailure.map Report.traces := by
    rw [traces, result_tracesFrom, behind_zero]
  rw [under, without]
  refine ⟨fun ts => ?_, ?_, ?_⟩
  · cases (ofRecords codec host records).orFirstFailure <;> simp [Except.map]
  · cases settled : (ofRecords codec host records).orFirstFailure with
    | error failure =>
      obtain ⟨f, -, rfl⟩ := orFirstFailure_eq_error_iff.1 settled
      exact .inr ⟨f.index, f.channel, f.failure, rfl, rfl⟩
    | ok report =>
      obtain ⟨complete, rfl⟩ := orFirstFailure_eq_ok_iff.1 settled
      have matched := forall₂_traces_ofRecords codec host complete
      refine .inl ⟨_, rfl, matched.length_eq.symm, matched.imp fun r t assembled => ?_⟩
      obtain ⟨-, ⟨⟩⟩ | ⟨-, rate, data, -, -, -, same⟩ :=
        Record.result_assemble_eq_ok_iff.1 assembled
      obtain rfl : t = r.trace rate data := Option.some.inj same
      exact ⟨assembled, rfl, rfl, rfl⟩
  · rw [Assembler.assemble, Assembler.calls_assembleUnder]
    exact calls_tracesFrom codec (failing .sequential).settings 0 records

end Traces

end Seismogram.Assembly
