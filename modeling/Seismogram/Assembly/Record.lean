import Seismogram.Assembly.Chunk
import Seismogram.Rate
import Seismogram.Trace

/-!
# Assembling a record

A record becomes one trace: its chunks are decoded in order and joined. A record that only keeps its
channel alive becomes none. A trace always holds as many samples as its record declares.
-/

namespace Seismogram.Record

def trace (r : Record) (rate : Float) (data : List Steim.Sample) : Trace where
  network := r.channel.network
  station := r.channel.station
  location := Text.trimEnd r.channel.site
  channel := r.channel.channel
  start := r.start
  samples := r.samples
  rate := rate
  data := data

def metric (r : Record) (rate : Float) : Log.Line :=
  Log.metric [("event", "assemble_record"), ("channel", r.channel.text),
    ("chunks", toString r.chunks.length), ("samples", toString r.samples),
    ("rate", Double.plain rate)]

/-- The trace of a record, or none for a record that keeps its channel alive. -/
def assemble (codec : Codec) (host : ByteOrder) (r : Record) : Outcome (Option Trace) := do
  if r.isKeepAlive then
    Outcome.log .debug s!"Skipping keep-alive record for {r.channel.text}"
    return none
  else
    let rate ← Outcome.ofResult (r.interval.rate r.samples)
    let data ← Chunk.decodeAll codec host r.chunks
    let trace := r.trace rate data
    Outcome.ofResult trace.verify
    Outcome.emit (.line (r.metric rate))
    return some trace

@[simp] theorem id_trace (r : Record) (rate : Float) (data : List Steim.Sample) :
    (r.trace rate data).id = r.channel.text := rfl

variable {codec : Codec} {host : ByteOrder} {r : Record}

theorem assemble_of_keepAlive (h : r.samples = 0) :
    r.assemble codec host =
      ⟨[.line ⟨.debug, s!"Skipping keep-alive record for {r.channel.text}"⟩], .ok none⟩ := by
  rw [assemble, if_pos (isKeepAlive_iff.2 h)]
  rfl

/-- What a record is assembled into: nothing if it has no samples, and otherwise the trace of its
rate and of the samples of its chunks, provided that they are as many as it declares. -/
theorem result_assemble_eq_ok_iff {assembled : Option Trace} :
    (r.assemble codec host).result = .ok assembled ↔
      (r.samples = 0 ∧ assembled = none) ∨
        (r.samples ≠ 0 ∧ ∃ rate data, r.interval.rate r.samples = .ok rate ∧
          (Chunk.decodeAll codec host r.chunks).result = .ok data ∧ data.length = r.samples ∧
            assembled = some (r.trace rate data)) := by
  by_cases h : r.samples = 0
  · simp [assemble_of_keepAlive h, h, eq_comm]
  · rw [assemble, if_neg fun keepAlive => h (isKeepAlive_iff.1 keepAlive)]
    simp only [Outcome.result_bind_eq_ok_iff, h, false_and, false_or, ne_eq, not_false_eq_true,
      true_and]
    constructor
    · rintro ⟨rate, resolved, data, decoded, ⟨⟩, verified, ⟨⟩, -, returned⟩
      exact ⟨rate, data, resolved, decoded, Trace.verify_eq_ok_iff.1 verified,
        (Except.ok.inj returned).symm⟩
    · rintro ⟨rate, data, resolved, decoded, complete, rfl⟩
      exact ⟨rate, resolved, data, decoded, (), Trace.verify_eq_ok_iff.2 complete, (), rfl, rfl⟩

theorem result_assemble_eq_none_iff :
    (r.assemble codec host).result = .ok none ↔ r.samples = 0 := by
  rw [result_assemble_eq_ok_iff]
  simp

end Seismogram.Record
