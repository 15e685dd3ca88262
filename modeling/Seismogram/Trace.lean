import Seismogram.Failure
import Seismogram.Steim.Word
import Seismogram.Time.Instant

/-!
# Traces

A trace is a run of evenly spaced samples of one channel.
-/

namespace Seismogram

open Time

structure Trace where
  network : String
  station : String
  location : String
  channel : String
  start : Instant
  samples : Nat
  rate : Float
  data : List Steim.Sample

namespace Trace

def id (t : Trace) : String := ".".intercalate [t.network, t.station, t.location, t.channel]

/-- The time between two samples in seconds. -/
def delta (t : Trace) : Float := 1.0 / t.rate

/-- The nanoseconds from the first sample to the last. -/
def span (t : Trace) : Int :=
  Double.toInt64 (Double.ofCount (t.samples - 1) / t.rate * 1e9)

/-- The instant of the last sample; `none` if it lies beyond the instants that exist. -/
def stop? (t : Trace) : Option Instant :=
  if t.samples ≤ 1 then some t.start else t.start.add? t.span

/-- Checks that a trace holds as many samples as it declares. -/
def verify (t : Trace) : Except Failure Unit :=
  if t.data.length = t.samples then .ok () else .error (.sampleCount t.samples t.data.length)

theorem verify_eq_ok_iff {t : Trace} : t.verify = .ok () ↔ t.data.length = t.samples := by
  unfold verify
  split <;> simp_all

end Trace
end Seismogram
