import Seismogram.ByteOrder
import Seismogram.Interval
import Seismogram.Text.Blank
import Seismogram.Time.Instant

/-!
# Seismogram records

A record is a piece of one channel's recording: when it begins, how many samples it holds, how they
are spaced, and the encoded chunks that hold them.
-/

namespace Seismogram

open Time

/-- The codes that name a channel. The site code of a blank location is two spaces. -/
structure ChannelId where
  network : String
  station : String
  site : String
  channel : String
  deriving DecidableEq, Repr

/-- The codes joined by points, the site code without blanks at its end. -/
def ChannelId.text (id : ChannelId) : String :=
  ".".intercalate [id.network, id.station, Text.trimEnd id.site, id.channel]

/-- Encoded samples with the code of their compression and the count they are declared to hold. -/
structure Chunk where
  compression : Int
  byteOrder : ByteOrder
  samples : Nat
  values : List UInt8

structure Record where
  channel : ChannelId
  start : Instant
  samples : Nat
  interval : SamplingInterval
  chunks : List Chunk

/-- A record without samples only says that its channel is alive. -/
def Record.isKeepAlive (r : Record) : Bool := decide (r.samples = 0)

theorem Record.isKeepAlive_iff {r : Record} : r.isKeepAlive = true ↔ r.samples = 0 :=
  decide_eq_true_iff

/-- A request for the records of a channel that begin in a window of time; its stop is outside. -/
structure Window where
  channel : ChannelId
  start : Instant
  stop : Instant
  deriving DecidableEq

def Window.holds (w : Window) (r : Record) : Bool :=
  decide (r.channel = w.channel) && decide (w.start ≤ r.start) && decide (r.start < w.stop)

end Seismogram
