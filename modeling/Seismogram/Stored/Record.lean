import Seismogram.Encoding
import Seismogram.Json.Form
import Seismogram.Record
import Seismogram.Time.Epoch
import Seismogram.Trace

/-!
# Stored records and traces

The stored forms of times, channels, records, windows and traces.
-/

namespace Seismogram.Stored

open Json Json.Form Time

variable (lib : Library)

/-- Instants, by the texts that the library has for them. -/
def instant : Form Instant := string.mapOption lib.ofInstant lib.toInstant?

def byteOrder : Form ByteOrder :=
  choice [.big, .little] fun
    | .big => "big"
    | .little => "little"

def encoding : Form Encoding :=
  choice [.steim1, .steim2] fun
    | .steim1 => "Steim1"
    | .steim2 => "Steim2"

def baseUnit : Form BaseUnit := choice BaseUnit.all BaseUnit.name

def epoch : Form Epoch :=
  structured ["start_time", "end_time"]
    (fun e => [("start_time", (instant lib).write e.start),
      ("end_time", (optional (instant lib)).write e.stop)])
    fun ms => do
      return ⟨← ms.required (instant lib) "start_time",
        ← ms.withDefault (optional (instant lib)) "end_time" none⟩

def channelId : Form ChannelId :=
  structured ["network_code", "station_code", "site_code", "channel_code"]
    (fun id => [("network_code", string.write id.network),
      ("station_code", string.write id.station),
      ("site_code", string.write id.site), ("channel_code", string.write id.channel)])
    fun ms => do
      return ⟨← ms.required string "network_code", ← ms.required string "station_code",
        ← ms.required string "site_code", ← ms.required string "channel_code"⟩

def interval : Form SamplingInterval :=
  structured ["value", "unit_base", "power", "multiplier", "exponent"]
    (fun i => [("value", (double lib).write i.value), ("unit_base", baseUnit.write i.unit),
      ("power", int32.write i.power), ("multiplier", (double lib).write i.multiplier),
      ("exponent", int32.write i.exponent)])
    fun ms => do
      return ⟨← ms.required (double lib) "value", ← ms.required baseUnit "unit_base",
        ← ms.required int32 "power", ← ms.required (double lib) "multiplier",
        ← ms.required int32 "exponent"⟩

def byte : Form UInt8 := (nat 256).map UInt8.toNat UInt8.ofNat

def chunk : Form Chunk :=
  structured ["compression_code", "byte_order", "sample_count", "values"]
    (fun c => [("compression_code", int32.write c.compression),
      ("byte_order", byteOrder.write c.byteOrder), ("sample_count", count.write c.samples),
      ("values", (list byte).write c.values)])
    fun ms => do
      return ⟨← ms.required int32 "compression_code", ← ms.required byteOrder "byte_order",
        ← ms.required count "sample_count", ← ms.required (list byte) "values"⟩

def record : Form Record :=
  structured ["channel_id", "begin_time", "sample_count", "sampling_interval", "chunks"]
    (fun r => [("channel_id", channelId.write r.channel),
      ("begin_time", (instant lib).write r.start), ("sample_count", count.write r.samples),
      ("sampling_interval", (interval lib).write r.interval),
      ("chunks", (list chunk).write r.chunks)])
    fun ms => do
      return ⟨← ms.required channelId "channel_id", ← ms.required (instant lib) "begin_time",
        ← ms.required count "sample_count", ← ms.required (interval lib) "sampling_interval",
        ← ms.required (list chunk) "chunks"⟩

def window : Form Window :=
  structured ["channel_id", "start_time", "end_time"]
    (fun w => [("channel_id", channelId.write w.channel),
      ("start_time", (instant lib).write w.start),
      ("end_time", (instant lib).write w.stop)])
    fun ms => do
      return ⟨← ms.required channelId "channel_id", ← ms.required (instant lib) "start_time",
        ← ms.required (instant lib) "end_time"⟩

def sample : Form Steim.Sample := int32.map Int32.toInt Int32.ofInt

def trace : Form Trace :=
  structured ["network", "station", "location", "channel", "start_time", "sample_count",
      "sampling_rate", "data"]
    (fun t => [("network", string.write t.network), ("station", string.write t.station),
      ("location", string.write t.location), ("channel", string.write t.channel),
      ("start_time", (instant lib).write t.start), ("sample_count", count.write t.samples),
      ("sampling_rate", (double lib).write t.rate), ("data", (list sample).write t.data)])
    fun ms => do
      return ⟨← ms.required string "network", ← ms.required string "station",
        ← ms.required string "location", ← ms.required string "channel",
        ← ms.required (instant lib) "start_time", ← ms.required count "sample_count",
        ← ms.required (double lib) "sampling_rate", ← ms.required (list sample) "data"⟩

end Seismogram.Stored
