import Seismogram.Assembly.Record
import Seismogram.Assembly.Settings
import Seismogram.Assembly.Workers

/-!
# Assembling a batch

Each record of a batch is attempted on its own, by one after another or by workers, and the
results are then put into a report in the order of the records. Records that keep a channel
alive are counted, and a failing record either ends the batch or is listed.
-/

namespace Seismogram.Assembly

/-- The result of one record: its trace, none for a keep-alive record, or a failure. -/
abbrev Attempt := Except Failure (Option Trace)

/-- A record that could not be assembled, by its position and channel. -/
structure RecordFailure where
  index : Nat
  channel : String
  failure : Failure

def RecordFailure.toFailure (f : RecordFailure) : Failure := .record f.index f.channel f.failure

/-- The traces and failures of a batch in the order of their records. -/
structure Report where
  traces : List Trace
  failures : List RecordFailure
  skipped : Nat

namespace Report

def empty : Report := ⟨[], [], 0⟩

def isComplete (r : Report) : Bool := r.failures.isEmpty

end Report

/-- An assembler: a codec under fixed settings. -/
structure Assembler where
  codec : Codec
  settings : Settings

namespace Assembler

def record (a : Assembler) (r : Record) : Outcome (Option Trace) :=
  r.assemble a.codec a.settings.host

def job (a : Assembler) (r : Record) : Workers.Yield Event Attempt :=
  ⟨(a.record r).events, (a.record r).result⟩

def attemptAll (a : Assembler) (records : List Record) : Workers.Yield Event (List Attempt) :=
  ⟨records.flatMap fun r => (a.record r).events, records.map fun r => (a.record r).result⟩

/-- Attempts at the records up to the first that fails; `index` is the position of the first. -/
def attemptUntilFailure (a : Assembler) (index : Nat) :
    List Record → Workers.Yield Event (List Attempt)
  | [] => ⟨[], []⟩
  | r :: rest =>
    let outcome := a.record r
    match outcome.result with
    | .error failure =>
      ⟨outcome.events ++ [.line ⟨.debug, s!"Stopping batch at failing record {index}"⟩],
        [.error failure]⟩
    | .ok trace =>
      let more := attemptUntilFailure a (index + 1) rest
      ⟨outcome.events ++ more.events, .ok trace :: more.result⟩

/-- The attempts that the settings ask for; workers step in the order of a schedule. -/
def attempts (a : Assembler) (schedule : List Nat) (records : List Record) :
    Workers.Yield Event (List Attempt) :=
  match a.settings.execution, a.settings.policy with
  | .sequential, .failFast => a.attemptUntilFailure 0 records
  | .sequential, .collectErrors => a.attemptAll records
  | .parallel workers, _ => Workers.share a.job workers schedule records

/-- Puts attempts into a report; `index` is the position of the first. A failure is logged, and ends
the batch or is listed. -/
def settle (policy : Policy) (index : Nat) : List (Record × Attempt) → Outcome Report
  | [] => pure Report.empty
  | (_, .ok (some trace)) :: rest => do
    let report ← settle policy (index + 1) rest
    return { report with traces := trace :: report.traces }
  | (_, .ok none) :: rest => do
    let report ← settle policy (index + 1) rest
    return { report with skipped := report.skipped + 1 }
  | (r, .error failure) :: rest => do
    let failed : RecordFailure := ⟨index, r.channel.text, failure⟩
    Outcome.log .warn failed.toFailure.message
    match policy with
    | .failFast => Outcome.fail failed.toFailure
    | .collectErrors =>
      let report ← settle policy (index + 1) rest
      return { report with failures := failed :: report.failures }

def summary (records : Nat) (r : Report) : String :=
  s!"Assembled {r.traces.length} trace(s) from {records} record(s): " ++
    s!"{r.skipped} keep-alive skipped, {r.failures.length} failed"

/-- The report of a batch whose workers step in the order of a schedule. -/
def assembleUnder (a : Assembler) (schedule : List Nat) (records : List Record) :
    Outcome Report := do
  let attempts := a.attempts schedule records
  Outcome.emitAll attempts.events
  let report ← settle a.settings.policy 0 (records.zip attempts.result)
  Outcome.log .info (summary records.length report)
  return report

def assemble (a : Assembler) (records : List Record) : Outcome Report :=
  a.assembleUnder [] records

end Assembler

/-- The traces of a batch without settings: one after another, up to the first failure. `index` is
the position of the first record. -/
def tracesFrom (codec : Codec) (host : ByteOrder) (index : Nat) :
    List Record → Outcome (List Trace)
  | [] => pure []
  | r :: rest =>
    let outcome := r.assemble codec host
    match outcome.result with
    | .error failure => ⟨outcome.events, .error (.record index r.channel.text failure)⟩
    | .ok trace =>
      let more := tracesFrom codec host (index + 1) rest
      ⟨outcome.events ++ more.events, more.result.map fun traces => trace.toList ++ traces⟩

def traces (codec : Codec) (host : ByteOrder) (records : List Record) : Outcome (List Trace) :=
  tracesFrom codec host 0 records

end Seismogram.Assembly
