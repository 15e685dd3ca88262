import Seismogram.Location
import Seismogram.Record
import Seismogram.Response.Filter
import Seismogram.Time.Epoch

/-!
# Stations, channels and their responses

Each entry is in effect for an epoch; a station or channel may have several of them.
-/

namespace Seismogram

open Time

structure StationId where
  network : String
  station : String
  deriving DecidableEq, Repr

theorem StationId.eq_mk_iff {id : StationId} {network station : String} :
    id = ⟨network, station⟩ ↔ id.network = network ∧ id.station = station := by
  cases id
  simp

structure Station where
  id : StationId
  location : Location
  epoch : Epoch

structure Channel where
  id : ChannelId
  epoch : Epoch
  deriving DecidableEq

structure ResponseEpoch where
  channel : ChannelId
  epoch : Epoch
  response : InstrumentResponse

def Channel.belongsTo (c : Channel) (id : StationId) : Bool :=
  decide (c.id.network = id.network) && decide (c.id.station = id.station)

end Seismogram
