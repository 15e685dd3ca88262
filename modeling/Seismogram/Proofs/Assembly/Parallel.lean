import Seismogram.Assembly.Batch

/-!
# Workers in place of one after another

A batch has the same outcome whether its records are assembled one after another or by workers,
for every number of workers and every order of their steps. Only the calls to the codec can be
told apart: workers attempt every record, also under the policy that ends a batch at its first
failure.
-/

namespace Seismogram.Assembly

namespace Assembler

variable (a : Assembler)

/-- What comes after a failure that ends the batch has no part in the report. -/
theorem settle_attemptUntilFailure (index start : Nat) (records : List Record) :
    settle .failFast index (records.zip (a.attemptUntilFailure start records).result) =
      settle .failFast index (records.zip (a.attemptAll records).result) := by
  induction records generalizing index start with
  | nil => rfl
  | cons r rest ih =>
    rw [attemptUntilFailure, attemptAll, List.map_cons]
    cases attempt : (a.record r).result with
    | error failure => rfl
    | ok trace =>
      have others := ih (index + 1) (start + 1)
      rw [attemptAll] at others
      simp only [List.zip_cons_cons]
      cases trace <;> simp only [settle, others]

theorem calls_settle (policy : Policy) (index : Nat) (attempts : List (Record × Attempt)) :
    Event.calls (settle policy index attempts).events = [] := by
  induction attempts generalizing index with
  | nil => rfl
  | cons head rest ih =>
    obtain ⟨r, failure | _ | trace⟩ := head
    · apply Outcome.calls_bind_eq_nil rfl
      intro _
      cases policy with
      | failFast => rfl
      | collectErrors => exact Outcome.calls_bind_eq_nil (ih (index + 1)) fun _ => rfl
    · exact Outcome.calls_bind_eq_nil (ih (index + 1)) fun _ => rfl
    · exact Outcome.calls_bind_eq_nil (ih (index + 1)) fun _ => rfl

/-- The report is that of the attempts, however they came about. -/
theorem result_assembleUnder (schedule : List Nat) (records : List Record) :
    (a.assembleUnder schedule records).result =
      (settle a.settings.policy 0 (records.zip (a.attempts schedule records).result)).result := by
  rw [assembleUnder, Outcome.bind_of_ok rfl, Outcome.result_bind]
  generalize settle a.settings.policy 0 (records.zip (a.attempts schedule records).result) = settled
  cases settled.result <;> rfl

/-- A batch calls the codec for its attempts, and no more. -/
theorem calls_assembleUnder (schedule : List Nat) (records : List Record) :
    Event.calls (a.assembleUnder schedule records).events =
      Event.calls (a.attempts schedule records).events := by
  have settled : Event.calls
      (settle a.settings.policy 0 (records.zip (a.attempts schedule records).result) >>=
        fun report => Outcome.log .info (summary records.length report) >>=
          fun _ => pure report).events = [] :=
    Outcome.calls_bind_eq_nil (calls_settle ..) fun _ => rfl
  rw [assembleUnder, Outcome.bind_of_ok rfl, Event.calls_append, settled, List.append_nil]
  rfl

/-- Sharing records among workers is not seen in the outcome of a batch: neither in its traces
and failures and their order nor in the failure that ends it, for every order of the workers'
steps. The codec is called for all records, each call as often as when all errors are collected
one record after another. -/
theorem parallel_refines_sequential (codec : Codec) (host : ByteOrder) (policy : Policy)
    (workers : Nat) (schedule : List Nat) (records : List Record) :
    let parallel : Assembler := ⟨codec, ⟨host, policy, .parallel workers⟩⟩
    let sequential : Assembler := ⟨codec, ⟨host, policy, .sequential⟩⟩
    let collecting : Assembler := ⟨codec, ⟨host, .collectErrors, .sequential⟩⟩
    (parallel.assembleUnder schedule records).result = (sequential.assemble records).result ∧
      (Event.calls (parallel.assembleUnder schedule records).events).Perm
        (Event.calls (collecting.assemble records).events) := by
  intro parallel sequential collecting
  have shared : (parallel.attempts schedule records).result =
      (parallel.attemptAll records).result := Workers.result_share ..
  constructor
  · rw [assemble, result_assembleUnder, result_assembleUnder, shared]
    cases policy with
    | failFast =>
      exact congrArg Outcome.result (sequential.settle_attemptUntilFailure 0 0 records).symm
    | collectErrors => rfl
  · rw [assemble, calls_assembleUnder, calls_assembleUnder]
    exact (Workers.events_share_perm parallel.job workers schedule records).filterMap _

end Assembler

/-! ### A mixed batch -/

def ofChunk (samples : Nat) (values : List UInt8) : Record :=
  ⟨⟨"GE", "APE", "00 ", "SHZ"⟩, (Time.Instant.ofUnix? 1056088800 0).get rfl, samples,
    ⟨0.08, .second, 0, 1.0, 1⟩, [⟨10, .big, samples, values⟩]⟩

/-- A frame of the samples 1, 2, 3 and 4. -/
def oneToFour : List UInt8 :=
  [1, 0, 0, 0, 0, 0, 0, 1, 0, 0, 0, 4, 0, 1, 1, 1] ++ List.replicate 48 0

/-- A record that is decoded, one whose frame is cut off, one without samples, and the first one
again. -/
def mixed : List Record :=
  [ofChunk 4 oneToFour, ofChunk 4 (oneToFour.take 32), ofChunk 0 [], ofChunk 4 oneToFour]

/-- What a batch with two records that are decoded, one that fails and one without samples comes
to. -/
theorem exists_report_mixed :
    ∃ report : Report,
      (Assembler.assemble ⟨.native .little, ⟨.little, .collectErrors, .sequential⟩⟩ mixed).result =
        .ok report ∧
      report.traces.map (·.data) = [[1, 2, 3, 4], [1, 2, 3, 4]] ∧
      report.failures.map (fun f => (f.index, f.channel)) = [(1, "GE.APE.00.SHZ")] ∧
      report.skipped = 1 := by
  have outline :
      (Assembler.assemble ⟨.native .little, ⟨.little, .collectErrors, .sequential⟩⟩
        mixed).result.toOption.map (fun report => (report.traces.map (·.data),
          report.failures.map fun f => (f.index, f.channel), report.skipped)) =
        some ([[1, 2, 3, 4], [1, 2, 3, 4]], [(1, "GE.APE.00.SHZ")], 1) := by decide +kernel
  cases assembled : (Assembler.assemble ⟨.native .little, ⟨.little, .collectErrors, .sequential⟩⟩
      mixed).result with
  | error failure =>
    rw [assembled] at outline
    cases outline
  | ok report =>
    rw [assembled] at outline
    obtain ⟨traces, rest⟩ := Prod.mk.inj (Option.some.inj outline)
    obtain ⟨failures, skipped⟩ := Prod.mk.inj rest
    exact ⟨report, rfl, traces, failures, skipped⟩

/-- Two workers who take turns on the mixed batch. -/
theorem Assembler.parallel_refines_sequential_mixed :
    let parallel : Assembler := ⟨.native .little, ⟨.little, .collectErrors, .parallel 2⟩⟩
    let shared := parallel.assembleUnder [1, 0, 1] mixed
    ∃ report, shared.result = .ok report ∧
      report.traces.map (·.data) = [[1, 2, 3, 4], [1, 2, 3, 4]] ∧
      report.failures.map (fun f => (f.index, f.channel)) = [(1, "GE.APE.00.SHZ")] ∧
      report.skipped = 1 ∧ (Event.calls shared.events).length = 3 := by
  intro parallel shared
  obtain ⟨same, calls⟩ := parallel_refines_sequential (.native .little) .little .collectErrors 2
    [1, 0, 1] mixed
  obtain ⟨report, assembled, traces, failures, skipped⟩ := exists_report_mixed
  refine ⟨report, same.trans assembled, traces, failures, skipped, calls.length_eq.trans ?_⟩
  decide +kernel

end Seismogram.Assembly
