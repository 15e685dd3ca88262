import Seismogram.Proofs.Assembly.Collecting
import Seismogram.Proofs.Assembly.FailingFast
import Seismogram.Proofs.Assembly.Integrity
import Seismogram.Proofs.Double.Rounding

/-!
# Rates of assembled records

A rate is resolved by rules in a fixed order, and what is resolved is finite. Assembling asks for a
rate only where a record has samples, so the rule for no samples never applies there: where its
words are found in a failure, the codec has said them. A record without a rate reaches no codec.
-/

namespace Seismogram

open Double

/-! ### Resolving a rate -/

namespace SamplingInterval

/-- The seconds that a descriptor stands for when its unit is the second. -/
def inSeconds (i : SamplingInterval) : Float :=
  pow (i.value * pow 10.0 i.power * i.multiplier) i.exponent

/-- What a rate is resolved to. The causes of a failure are looked for in the order of these
rules. -/
inductive Resolves (i : SamplingInterval) (samples : Nat) : Except Failure Float → Prop where
  | otherUnit (unit : i.unit ≠ .second) : Resolves i samples (.error (.unitNotSecond i.unit))
  | noSamples (unit : i.unit = .second) (none : samples = 0) :
      Resolves i samples (.error (.interval .noSamples))
  | notPositive (unit : i.unit = .second) (some : samples ≠ 0)
      (interval : ¬ PositiveFinite i.inSeconds) :
      Resolves i samples (.error (.interval (.notPositive i.inSeconds)))
  | notFinite (unit : i.unit = .second) (some : samples ≠ 0)
      (interval : PositiveFinite i.inSeconds)
      (quotient : (ofCount samples / i.inSeconds).isFinite = false) :
      Resolves i samples (.error (.interval (.rateNotFinite samples i.inSeconds)))
  | rate (unit : i.unit = .second) (some : samples ≠ 0) (interval : PositiveFinite i.inSeconds)
      (quotient : (ofCount samples / i.inSeconds).isFinite = true) :
      Resolves i samples (.ok (ofCount samples / i.inSeconds))

variable {i : SamplingInterval} {samples : Nat} {result : Except Failure Float}

theorem rate_of_second (unit : i.unit = .second) :
    i.rate samples =
      if samples = 0 then .error (.interval .noSamples)
      else if (!i.inSeconds.isFinite || decide (i.inSeconds ≤ 0.0)) = true then
        .error (.interval (.notPositive i.inSeconds))
      else if (ofCount samples / i.inSeconds).isFinite = true then
        .ok (ofCount samples / i.inSeconds)
      else .error (.interval (.rateNotFinite samples i.inSeconds)) := by
  rw [SamplingInterval.rate, seconds, if_pos unit]
  rfl

theorem Resolves.rate_eq (h : i.Resolves samples result) : i.rate samples = result := by
  cases h with
  | otherUnit unit => rw [SamplingInterval.rate, seconds, if_neg unit]
  | noSamples unit none => rw [rate_of_second unit, if_pos none]
  | notPositive unit some interval =>
    rw [rate_of_second unit, if_neg some, if_pos (not_not.1 (positiveFinite_iff.not.1 interval))]
  | notFinite unit some interval quotient =>
    rw [rate_of_second unit, if_neg some, if_neg (positiveFinite_iff.1 interval),
      if_neg (Bool.not_eq_true _ ▸ quotient)]
  | rate unit some interval quotient =>
    rw [rate_of_second unit, if_neg some, if_neg (positiveFinite_iff.1 interval), if_pos quotient]

theorem exists_resolves (i : SamplingInterval) (samples : Nat) :
    ∃ result, i.Resolves samples result := by
  by_cases unit : i.unit = .second
  · by_cases none : samples = 0
    · exact ⟨_, .noSamples unit none⟩
    by_cases interval : PositiveFinite i.inSeconds
    · cases quotient : (ofCount samples / i.inSeconds).isFinite with
      | true => exact ⟨_, .rate unit none interval quotient⟩
      | false => exact ⟨_, .notFinite unit none interval quotient⟩
    · exact ⟨_, .notPositive unit none interval⟩
  · exact ⟨_, .otherUnit unit⟩

theorem rate_eq_iff : i.rate samples = result ↔ i.Resolves samples result := by
  constructor
  · rintro rfl
    obtain ⟨result, applies⟩ := exists_resolves i samples
    rwa [applies.rate_eq]
  · exact Resolves.rate_eq

end SamplingInterval

/-! ### The words of a failure -/

namespace Failure

/-- Whether the cause behind a failure words that a rate was asked for no samples. -/
def SaysNoSamples (f : Failure) : Prop :=
  f.rootCause.message = (interval .noSamples).message

theorem append_ne {front back text : String} {c d : Char} (first : front.toList.head? = some c)
    (other : text.toList.head? = some d) (different : c ≠ d) : front ++ back ≠ text := by
  rintro rfl
  rw [String.toList_append, List.head?_append, first] at other
  exact different (Option.some.inj other)

theorem head?_message_noSamples : (interval .noSamples).message.toList.head? = some 'I' := by
  decide

/-- A failure of its own kind has other words if they begin otherwise. -/
theorem not_saysNoSamples_of_opening {f : Failure} (own : f.rootCause = f) {c : Char}
    {front back : String} (text : f.message = front ++ back) (first : front.toList.head? = some c)
    (different : c ≠ 'I') : ¬ f.SaysNoSamples := by
  rw [SaysNoSamples, own, text]
  exact append_ne first head?_message_noSamples different

theorem not_saysNoSamples_of_fault {fault : IntervalFault} {c : Char} {front back : String}
    (text : fault.message = front ++ back) (first : front.toList.head? = some c)
    (different : c ≠ 'z') : ¬ (interval fault).SaysNoSamples := by
  intro same
  have faults : fault.message = IntervalFault.message .noSamples :=
    (String.append_right_inj "Invalid sampling interval: ").1 same
  rw [text] at faults
  exact append_ne first (d := 'z') (by decide) different faults

theorem not_saysNoSamples_unknownCompression (code : Int) :
    ¬ (unknownCompression code).SaysNoSamples :=
  not_saysNoSamples_of_opening rfl (c := 'C') (String.append_assoc ..) (by decide) (by decide)

theorem not_saysNoSamples_sampleCount (expected actual : Nat) :
    ¬ (sampleCount expected actual).SaysNoSamples := by
  have text : (sampleCount expected actual).message =
      "Sample count mismatch: expected " ++
        (toString expected ++ (", got " ++ toString actual)) := by
    show "Sample count mismatch: expected " ++ toString expected ++ ", got " ++ toString actual = _
    rw [String.append_assoc, String.append_assoc]
  exact not_saysNoSamples_of_opening rfl (c := 'S') text (by decide) (by decide)

end Failure

/-- Where there are samples, resolving a rate does not complain about their absence. -/
theorem SamplingInterval.Resolves.not_saysNoSamples {i : SamplingInterval} {samples : Nat}
    {failure : Failure} (h : i.Resolves samples (.error failure)) (some : samples ≠ 0) :
    ¬ failure.SaysNoSamples := by
  cases h with
  | otherUnit unit =>
    exact Failure.not_saysNoSamples_of_opening rfl (c := 'U') (String.append_assoc ..) (by decide)
      (by decide)
  | noSamples unit none => exact absurd none some
  | notPositive unit some interval =>
    exact Failure.not_saysNoSamples_of_fault (c := 'i') (String.append_assoc ..) (by decide)
      (by decide)
  | notFinite unit some interval quotient =>
    have text : (IntervalFault.rateNotFinite samples i.inSeconds).message =
        "rate " ++ (toString samples ++ (" / " ++ (plain i.inSeconds ++ " s is not finite"))) := by
      show "rate " ++ toString samples ++ " / " ++ plain i.inSeconds ++ " s is not finite" = _
      rw [String.append_assoc, String.append_assoc, String.append_assoc]
    exact Failure.not_saysNoSamples_of_fault (c := 'r') text (by decide) (by decide)

/-! ### Records -/

variable {codec : Codec} {host : ByteOrder} {r : Record}

/-- Whether the codec itself gives a failure to a call that a record makes. -/
def Codec.FailsOn (codec : Codec) (host : ByteOrder) (r : Record) (failure : Failure) : Prop :=
  ∃ call ∈ Event.calls (r.assemble codec host).events,
    (codec.decode call).samples = .error failure

theorem Chunk.Reads.exists_call_of_saysNoSamples {chunk : Chunk} {failure : Failure}
    (failed : chunk.Reads codec host (.error failure)) (words : failure.SaysNoSamples) :
    ∃ call ∈ chunk.calls host, (codec.decode call).samples = .error failure := by
  cases failed with
  | unregistered first second =>
    exact absurd words (Failure.not_saysNoSamples_unknownCompression _)
  | miscounted code answer count => exact absurd words (Failure.not_saysNoSamples_sampleCount _ _)
  | @refused e _ code answer =>
    refine ⟨chunk.call e host, ?_, answer⟩
    rw [Chunk.calls, code, Encoding.ofCode?_code]
    exact List.mem_singleton_self _

namespace Record

/-- A record that fails in these words has them from the codec: it asks for a rate only if it has
samples. -/
theorem failsOn_of_saysNoSamples {failure : Failure}
    (failed : (r.assemble codec host).result = .error failure) (words : failure.SaysNoSamples) :
    codec.FailsOn host r failure := by
  obtain ⟨calls, applies⟩ : ∃ calls, r.Assembles codec host calls (.error failure) :=
    ⟨_, assembles_iff.2 ⟨rfl, failed⟩⟩
  have made := applies.outcome.1
  cases applies with
  | rate samples unresolved =>
    have resolves := SamplingInterval.rate_eq_iff.1 unresolved
    exact absurd words (resolves.not_saysNoSamples samples)
  | total samples resolved read declared =>
    exact absurd words (Failure.not_saysNoSamples_sampleCount _ _)
  | @chunk _ front back parts chunk _ samples resolved chunks read failed =>
    obtain ⟨call, own, answer⟩ := failed.exists_call_of_saysNoSamples words
    refine ⟨call, ?_, answer⟩
    rw [made]
    exact List.mem_flatMap.2 ⟨chunk, List.mem_append_right _ (List.mem_singleton_self _), own⟩

theorem isFinite_rate_of_assemble {t : Trace}
    (assembled : (r.assemble codec host).result = .ok (some t)) : t.rate.isFinite = true := by
  obtain ⟨-, ⟨⟩⟩ | ⟨-, rate, data, resolved, -, -, same⟩ := result_assemble_eq_ok_iff.1 assembled
  obtain rfl : t = r.trace rate data := Option.some.inj same
  exact SamplingInterval.isFinite_of_rate resolved

def hasRate (r : Record) : Bool := (r.interval.rate r.samples).isOk

theorem calls_of_rateFailure {failure : Failure}
    (unresolved : r.interval.rate r.samples = .error failure) :
    Event.calls (r.assemble codec host).events = [] := by
  by_cases samples : r.samples = 0
  · rw [assemble_of_keepAlive samples]
    rfl
  · rw [assemble_of_rateFailure samples unresolved]
    rfl

/-- Only the records whose rate is resolved make calls. -/
theorem flatMap_calls_filter_hasRate (codec : Codec) (host : ByteOrder) (records : List Record) :
    (records.filter hasRate).flatMap (fun r => Event.calls (r.assemble codec host).events) =
      records.flatMap fun r => Event.calls (r.assemble codec host).events := by
  induction records with
  | nil => rfl
  | cons r rest ih =>
    cases resolved : r.interval.rate r.samples with
    | ok rate =>
      have rated : r.hasRate = true := by rw [hasRate, resolved]; rfl
      rw [List.filter_cons_of_pos rated, List.flatMap_cons, List.flatMap_cons, ih]
    | error failure =>
      have unrated : ¬ r.hasRate = true := by rw [hasRate, resolved]; exact Bool.false_ne_true
      rw [List.filter_cons_of_neg unrated, List.flatMap_cons, calls_of_rateFailure resolved, ih,
        List.nil_append]

end Record

/-! ### Batches -/

namespace Assembly

open Report

theorem Report.exists_of_mem_traces {records : List Record} {t : Trace}
    (listed : t ∈ (ofRecords codec host records).traces) :
    ∃ r ∈ records, (r.assemble codec host).result = .ok (some t) := by
  rw [traces_ofRecords] at listed
  obtain ⟨r, member, assembled⟩ := List.mem_filterMap.1 listed
  refine ⟨r, member, ?_⟩
  cases result : (r.assemble codec host).result with
  | error failure => rw [result] at assembled; cases assembled
  | ok trace => rw [result] at assembled; exact congrArg Except.ok assembled

/-- A failure in these words that a report lists, the codec has given. -/
theorem Report.failsOn_of_mem_failures {records : List Record} {f : RecordFailure}
    (listed : f ∈ (ofRecords codec host records).failures) (words : f.failure.SaysNoSamples) :
    ∃ r, records[f.index]? = some r ∧ codec.FailsOn host r f.failure := by
  obtain ⟨r, position, -, failed⟩ := mem_failures_ofRecords.1 listed
  exact ⟨r, position, r.failsOn_of_saysNoSamples failed words⟩

variable (a : Assembler)

theorem Assembler.eq_ofRecords_of_ok {schedule : List Nat} {records : List Record} {report : Report}
    (assembled : (a.assembleUnder schedule records).result = .ok report) :
    report = ofRecords a.codec a.settings.host records := by
  rw [result_assembleUnder_eq] at assembled
  cases policy : a.settings.policy with
  | failFast =>
    rw [policy] at assembled
    exact (orFirstFailure_eq_ok_iff.1 assembled).2
  | collectErrors =>
    rw [policy] at assembled
    exact (Except.ok.inj assembled).symm

theorem Assembler.orFirstFailure_of_error {schedule : List Nat} {records : List Record}
    {failure : Failure} (failed : (a.assembleUnder schedule records).result = .error failure) :
    (ofRecords a.codec a.settings.host records).orFirstFailure = .error failure := by
  rw [result_assembleUnder_eq] at failed
  cases policy : a.settings.policy with
  | failFast => rwa [policy] at failed
  | collectErrors => rw [policy] at failed; cases failed

/-- A failure that ends a batch carries the words of the record that failed first. -/
theorem Report.failsOn_of_orFirstFailure {records : List Record} {failure : Failure}
    (failed : (ofRecords codec host records).orFirstFailure = .error failure)
    (words : failure.SaysNoSamples) :
    ∃ r ∈ records, ∃ own, codec.FailsOn host r own ∧ own.SaysNoSamples := by
  obtain ⟨f, first, rfl⟩ := orFirstFailure_eq_error_iff.1 failed
  obtain ⟨r, position, own⟩ := failsOn_of_mem_failures (List.mem_of_mem_head? first) words
  exact ⟨r, List.mem_of_getElem? position, f.failure, own, words⟩

/-- Whoever does the work, a batch makes each call of its records at most once. -/
theorem Assembler.calls_subperm (schedule : List Nat) (records : List Record) :
    (Event.calls (a.assembleUnder schedule records).events).Subperm
      (records.flatMap fun r => Event.calls (a.record r).events) := by
  rw [calls_assembleUnder, attempts]
  split
  · rw [calls_attemptUntilFailure]
    exact ((List.take_sublist _ records).flatMap _).subperm
  · rw [calls_attemptAll]
  · exact ((Workers.events_share_perm ..).filterMap _).subperm.trans
      (List.Sublist.subperm (calls_attemptAll a records ▸ List.Sublist.refl _))

/-- How rates are resolved, and what follows for batches. A descriptor and a count are resolved by
the first rule that applies: another unit than the second, no samples, an interval that is not
finite or not above zero, a quotient that is not finite; and otherwise to the quotient. Of a batch
under any settings, and of one without settings, all traces have finite rates, and where the words
of the rule for no samples are found in a failure, the codec itself has given it to a call of the
record. A record whose rate is not resolved makes no call, and a batch makes at most those of the
others. -/
theorem rates_resolved :
    (∀ (i : SamplingInterval) (samples : Nat) (result : Except Failure Float),
      i.rate samples = result ↔ i.Resolves samples result) ∧
    ∀ (a : Assembler) (schedule : List Nat) (records : List Record),
      let under := a.assembleUnder schedule records
      let without := traces a.codec a.settings.host records
      let calls (r : Record) := Event.calls (r.assemble a.codec a.settings.host).events
      (∀ report, under.result = .ok report →
        (∀ t ∈ report.traces, t.rate.isFinite = true) ∧
        ∀ f ∈ report.failures, f.failure.SaysNoSamples →
          ∃ r, records[f.index]? = some r ∧ a.codec.FailsOn a.settings.host r f.failure) ∧
      (∀ ts, without.result = .ok ts → ∀ t ∈ ts, t.rate.isFinite = true) ∧
      (∀ failure, under.result = .error failure ∨ without.result = .error failure →
        failure.SaysNoSamples →
          ∃ r ∈ records, ∃ own, a.codec.FailsOn a.settings.host r own ∧ own.SaysNoSamples) ∧
      (∀ r failure, r.interval.rate r.samples = .error failure → calls r = []) ∧
      (Event.calls under.events).Subperm ((records.filter Record.hasRate).flatMap calls) ∧
      (Event.calls without.events).Subperm ((records.filter Record.hasRate).flatMap calls) := by
  refine ⟨fun i samples result => SamplingInterval.rate_eq_iff, ?_⟩
  intro a schedule records under without calls
  have finite : ∀ t ∈ (ofRecords a.codec a.settings.host records).traces,
      t.rate.isFinite = true := by
    intro t listed
    obtain ⟨r, -, assembled⟩ := exists_of_mem_traces listed
    exact Record.isFinite_rate_of_assemble assembled
  have withoutSettings : without.result =
      (ofRecords a.codec a.settings.host records).orFirstFailure.map Report.traces := by
    rw [show without.result = _ from result_tracesFrom .., behind_zero]
  refine ⟨fun report assembled => ?_, fun ts assembled => ?_, fun failure failed words => ?_,
    fun r failure unresolved => Record.calls_of_rateFailure unresolved, ?_, ?_⟩
  · obtain rfl := a.eq_ofRecords_of_ok assembled
    exact ⟨finite, fun f listed words => failsOn_of_mem_failures listed words⟩
  · rw [withoutSettings] at assembled
    cases settled : (ofRecords a.codec a.settings.host records).orFirstFailure with
    | error failure => rw [settled] at assembled; cases assembled
    | ok report =>
      obtain ⟨-, rfl⟩ := orFirstFailure_eq_ok_iff.1 settled
      rw [settled] at assembled
      obtain rfl := Except.ok.inj assembled
      exact finite
  · refine failsOn_of_orFirstFailure ?_ words
    rcases failed with failed | failed
    · exact a.orFirstFailure_of_error failed
    · rw [withoutSettings] at failed
      cases settled : (ofRecords a.codec a.settings.host records).orFirstFailure with
      | error own => rw [settled] at failed; exact congrArg Except.error (Except.error.inj failed)
      | ok report => rw [settled] at failed; cases failed
  · rw [Record.flatMap_calls_filter_hasRate]
    exact a.calls_subperm schedule records
  · have same : Event.calls without.events =
        Event.calls (Assembler.attemptUntilFailure a 0 records).events :=
      calls_tracesFrom a.codec a.settings 0 records
    rw [Record.flatMap_calls_filter_hasRate, same, Assembler.calls_attemptUntilFailure]
    exact ((List.take_sublist _ records).flatMap _).subperm

/-- A codec that only answers calls for two samples, and otherwise complains about no samples. -/
def complaining : Codec :=
  ⟨fun call => ⟨[], if call.wanted = 2 then .ok [1, 2] else .error (.interval .noSamples)⟩⟩

def inOneChunk : Record := { Record.inTwoChunks with chunks := [⟨10, .big, 4, []⟩] }

theorem rates_resolved_complaint :
    let a : Assembler := ⟨complaining, ⟨.little, .collectErrors, .sequential⟩⟩
    ∃ report t f, (a.assemble [Record.inTwoChunks, inOneChunk]).result = .ok report ∧
      t ∈ report.traces ∧ t.rate.isFinite = true ∧
      f ∈ report.failures ∧ f.failure.SaysNoSamples ∧
      complaining.FailsOn .little inOneChunk f.failure := by
  intro a
  obtain ⟨-, batches⟩ := rates_resolved
  obtain ⟨reported, -⟩ := batches a [] [Record.inTwoChunks, inOneChunk]
  obtain ⟨rate, resolved⟩ := Record.exists_rate_inTwoChunks
  have read : Chunk.ReadAs complaining .little Record.inTwoChunks.chunks [[1, 2], [1, 2]] :=
    .cons (.answered (e := .steim1) rfl rfl rfl) (.cons (.answered (e := .steim2) rfl rfl rfl) .nil)
  have first : (Record.inTwoChunks.assemble complaining .little).result =
      .ok (some (Record.inTwoChunks.trace rate [1, 2, 1, 2])) :=
    (Record.Assembles.trace (by decide) resolved read rfl).outcome.2
  have refused :
      Chunk.Reads complaining .little ⟨10, .big, 4, []⟩ (.error (.interval .noSamples)) :=
    .refused (e := .steim1) rfl rfl
  have chunks : inOneChunk.chunks = [] ++ ⟨10, .big, 4, []⟩ :: [] := rfl
  have resolvedAlike : inOneChunk.interval.rate inOneChunk.samples = .ok rate := resolved
  have second : (inOneChunk.assemble complaining .little).result =
      .error (.interval .noSamples) :=
    (Record.Assembles.chunk (by decide) resolvedAlike chunks .nil refused).outcome.2
  have assembled : (a.assemble [Record.inTwoChunks, inOneChunk]).result =
      .ok (ofRecords complaining .little [Record.inTwoChunks, inOneChunk]) :=
    a.result_assembleUnder_eq [] _
  obtain ⟨finite, given⟩ := reported _ assembled
  have trace : Record.inTwoChunks.trace rate [1, 2, 1, 2] ∈
      (ofRecords complaining .little [Record.inTwoChunks, inOneChunk]).traces := by
    rw [ofRecords_cons, first]
    exact List.mem_cons_self
  have failure : ⟨1, inOneChunk.channel.text, .interval .noSamples⟩ ∈
      (ofRecords complaining .little [Record.inTwoChunks, inOneChunk]).failures :=
    mem_failures_ofRecords.2 ⟨inOneChunk, rfl, rfl, second⟩
  obtain ⟨r, position, own⟩ := given _ failure rfl
  obtain rfl : inOneChunk = r := Option.some.inj position
  exact ⟨_, _, _, assembled, trace, finite _ trace, failure, rfl, own⟩

end Assembly
end Seismogram
