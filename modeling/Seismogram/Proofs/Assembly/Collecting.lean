import Seismogram.Proofs.Assembly.Settling

/-!
# Collecting errors

A batch that collects errors is assembled record by record. Its report has for every record what
that record yields alone, so the reports of two batches join to the report of both together. One
after another, the only warnings in the log are those of the codec, and then one for each failure.
-/

namespace Seismogram

/-- The warnings that a codec gives on a call. -/
def Codec.warnings (codec : Codec) (call : Codec.Call) : List Log.Line :=
  (codec.decode call).lines.filter fun line => decide (line.level = .warn)

/-- Whether the codec gives all warnings among events, call by call. -/
def Codec.GivesWarnings (codec : Codec) (events : List Event) : Prop :=
  Event.warnings events = (Event.calls events).flatMap codec.warnings

namespace Codec.GivesWarnings

variable {codec : Codec} {α β : Type}

theorem append {front back : List Event} (hf : codec.GivesWarnings front)
    (hb : codec.GivesWarnings back) : codec.GivesWarnings (front ++ back) := by
  rw [GivesWarnings, Event.warnings_append, Event.calls_append, List.flatMap_append, hf, hb]

theorem flatMap {events : α → List Event} (h : ∀ a, codec.GivesWarnings (events a))
    (as : List α) : codec.GivesWarnings (as.flatMap events) := by
  induction as with
  | nil => rfl
  | cons a rest ih => exact (h a).append ih

theorem bind {first : Outcome α} {next : α → Outcome β} (hf : codec.GivesWarnings first.events)
    (hn : ∀ a, codec.GivesWarnings (next a).events) :
    codec.GivesWarnings (first >>= next).events := by
  rw [Outcome.events_bind]
  refine hf.append ?_
  cases first.result with
  | error failure => rfl
  | ok a => exact hn a

/-- A call followed by what the codec logs. -/
theorem call (codec : Codec) (call : Codec.Call) :
    codec.GivesWarnings (.decode call :: (codec.decode call).lines.map .line) := by
  have calls : Event.calls (.decode call :: (codec.decode call).lines.map .line) = [call] :=
    congrArg (call :: ·) (Event.calls_map_line _)
  have lines : Event.lines (.decode call :: (codec.decode call).lines.map .line) =
      (codec.decode call).lines := Event.lines_map_line _
  rw [GivesWarnings, calls, Event.warnings, lines, List.flatMap_singleton]
  rfl

theorem chunk (host : ByteOrder) (chunk : Chunk) :
    codec.GivesWarnings (chunk.decode codec host).events := by
  rw [Chunk.decode]
  split
  · rfl
  · next e _ =>
    have called := call codec (chunk.call e host)
    dsimp only
    split
    · exact called
    · split
      · exact called.append rfl
      · exact called

theorem chunks (host : ByteOrder) (chunks : List Chunk) :
    codec.GivesWarnings (Chunk.decodeAll codec host chunks).events := by
  induction chunks with
  | nil => rfl
  | cons first rest ih => exact (chunk host first).bind fun _ => ih.bind fun _ => rfl

theorem record (host : ByteOrder) (r : Record) :
    codec.GivesWarnings (r.assemble codec host).events := by
  rw [Record.assemble]
  split
  · rfl
  · refine bind rfl fun _ => (chunks host r.chunks).bind fun _ => ?_
    exact bind rfl fun _ => rfl

end Codec.GivesWarnings

namespace Assembly

namespace Report

/-- The failures are those of the records that fail alone, each with its position, its channel and
its own reason. -/
theorem mem_failures_ofRecords {codec : Codec} {host : ByteOrder} {records : List Record}
    {f : RecordFailure} :
    f ∈ (ofRecords codec host records).failures ↔
      ∃ r, records[f.index]? = some r ∧ f.channel = r.channel.text ∧
        (r.assemble codec host).result = .error f.failure := by
  rw [ofRecords, mem_failures_ofAttempts]
  simp only [List.getElem?_map, Option.map_eq_some_iff, Prod.mk.injEq]
  constructor
  · rintro ⟨r, ⟨r, found, rfl, failed⟩, channel⟩
    exact ⟨r, found, channel, failed⟩
  · rintro ⟨r, found, channel, failed⟩
    exact ⟨r, ⟨r, found, rfl, failed⟩, channel⟩

theorem traces_ofRecords (codec : Codec) (host : ByteOrder) (records : List Record) :
    (ofRecords codec host records).traces =
      records.filterMap fun r => Attempt.trace? (r.assemble codec host).result := by
  rw [ofRecords, traces_ofAttempts, List.filterMap_map]
  rfl

theorem skipped_ofRecords (codec : Codec) (host : ByteOrder) (records : List Record) :
    (ofRecords codec host records).skipped = records.countP Record.isKeepAlive := by
  rw [ofRecords, skipped_ofAttempts, List.countP_map]
  refine List.countP_congr fun r _ => ?_
  rw [Function.comp_apply, Attempt.isSkipped_iff, Record.result_assemble_eq_none_iff,
    Record.isKeepAlive_iff]

end Report

namespace Assembler

theorem warnings_failures (failures : List RecordFailure) :
    Event.warnings ((failures.map RecordFailure.warning).map .line) =
      failures.map RecordFailure.warning := by
  rw [Event.warnings, Event.lines_map_line, List.filter_eq_self]
  intro line member
  obtain ⟨f, -, rfl⟩ := List.mem_map.1 member
  rfl

/-- One after another, a batch that collects errors logs what its records log, then one line for
each failure, and last its summary. -/
theorem events_assemble_collectErrors (codec : Codec) (host : ByteOrder) (records : List Record) :
    (assemble ⟨codec, ⟨host, .collectErrors, .sequential⟩⟩ records).events =
      (records.flatMap fun r => (r.assemble codec host).events) ++
        ((Report.ofRecords codec host records).failures.map RecordFailure.warning).map .line ++
        [.line ⟨.info, summary records.length (Report.ofRecords codec host records)⟩] := by
  have settled := (settle_attempts ⟨codec, ⟨host, .collectErrors, .sequential⟩⟩ [] records).trans
    (settle_collectErrors 0 _)
  rw [Report.behind_zero] at settled
  rw [assemble, assembleUnder, Outcome.bind_of_ok rfl, settled, Outcome.bind_of_ok rfl,
    List.append_assoc]
  rfl

/-- A batch that collects errors is assembled record by record, whoever does the work. It never
fails. Its report has the traces of the records that succeed, in order; the failures of those that
fail alone, with their positions, channels and reasons, by growing position; and the number of
those without samples; so every record is found in one of the three. The report of two batches
together is that of the one followed by that of the other, and whatever takes the place of a
record, the others contribute the same. One after another, the codec's own warnings are
followed by exactly one for each failure, in order. -/
theorem collectErrors_recordByRecord (codec : Codec) (host : ByteOrder) (execution : Execution)
    (schedule : List Nat) (records : List Record) :
    let collecting : Assembler := ⟨codec, ⟨host, .collectErrors, execution⟩⟩
    let sequential : Assembler := ⟨codec, ⟨host, .collectErrors, .sequential⟩⟩
    let report := Report.ofRecords codec host
    (collecting.assembleUnder schedule records).result = .ok (report records) ∧
      (report records).traces =
        records.filterMap (fun r => Attempt.trace? (r.assemble codec host).result) ∧
      (∀ f, f ∈ (report records).failures ↔
        ∃ r, records[f.index]? = some r ∧ f.channel = r.channel.text ∧
          (r.assemble codec host).result = .error f.failure) ∧
      (report records).failures.Pairwise (fun f g => f.index < g.index) ∧
      (report records).skipped = records.countP Record.isKeepAlive ∧
      (report records).traces.length + (report records).failures.length +
        (report records).skipped = records.length ∧
      (∀ others, report (records ++ others) =
        (report records).followedBy records.length (report others)) ∧
      (∀ r others, report (records ++ r :: others) =
        (report records).followedBy records.length
          ((report [r]).followedBy 1 (report others))) ∧
      Event.warnings (sequential.assemble records).events =
        (Event.calls (sequential.assemble records).events).flatMap codec.warnings ++
          (report records).failures.map RecordFailure.warning := by
  intro collecting sequential report
  refine ⟨collecting.result_assembleUnder_eq schedule records, Report.traces_ofRecords ..,
    fun f => Report.mem_failures_ofRecords, Report.pairwise_index_ofAttempts _,
    Report.skipped_ofRecords .., Report.length_ofRecords ..,
    Report.ofRecords_append codec host records, ?_, ?_⟩
  · intro r others
    exact (Report.ofRecords_append codec host records (r :: others)).trans
      (congrArg _ (Report.ofRecords_append codec host [r] others))
  · have alone : codec.GivesWarnings (records.flatMap fun r => (r.assemble codec host).events) :=
      .flatMap (.record host) records
    have unwarned (text : String) : Event.warnings [.line ⟨.info, text⟩] = [] := rfl
    have uncalled (text : String) : Event.calls [.line ⟨.info, text⟩] = [] := rfl
    rw [events_assemble_collectErrors, Event.warnings_append, Event.warnings_append,
      Event.calls_append, Event.calls_append, unwarned, uncalled, alone, warnings_failures,
      Event.calls_map_line, List.append_nil, List.append_nil, List.append_nil]

end Assembler
end Assembly
end Seismogram
