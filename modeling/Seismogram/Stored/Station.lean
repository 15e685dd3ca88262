import Seismogram.Directory.Catalog
import Seismogram.Stored.Record
import Seismogram.Stored.Response

/-!
# Stored stations and catalogs

The stored forms of the entries of a catalog, and of a catalog as a whole.
-/

namespace Seismogram.Stored

open Json Json.Form

variable (lib : Library)

def locationKind : Form LocationKind := choice LocationKind.all LocationKind.name

def location : Form Location :=
  structured ["latitude", "longitude", "elevation", "elevation_unit", "location_type"]
    (fun l => [("latitude", (double lib).write l.latitude),
      ("longitude", (double lib).write l.longitude),
      ("elevation", (double lib).write l.elevation),
      ("elevation_unit", string.write l.elevationUnit),
      ("location_type", locationKind.write l.kind)])
    fun ms => do
      return ⟨← ms.required (double lib) "latitude", ← ms.required (double lib) "longitude",
        ← ms.required (double lib) "elevation", ← ms.required string "elevation_unit",
        ← ms.required locationKind "location_type"⟩

def stationId : Form StationId :=
  structured ["network_code", "station_code"]
    (fun id => [("network_code", string.write id.network),
      ("station_code", string.write id.station)])
    fun ms => do
      return ⟨← ms.required string "network_code", ← ms.required string "station_code"⟩

def station : Form Station :=
  structured ["id", "location", "effective_time"]
    (fun s => [("id", stationId.write s.id), ("location", (location lib).write s.location),
      ("effective_time", (epoch lib).write s.epoch)])
    fun ms => do
      return ⟨← ms.required stationId "id", ← ms.required (location lib) "location",
        ← ms.required (epoch lib) "effective_time"⟩

def channel : Form Channel :=
  structured ["id", "effective_time"]
    (fun c => [("id", channelId.write c.id), ("effective_time", (epoch lib).write c.epoch)])
    fun ms => do
      return ⟨← ms.required channelId "id", ← ms.required (epoch lib) "effective_time"⟩

def responseEpoch : Form ResponseEpoch :=
  structured ["channel", "effective_time", "response"]
    (fun r => [("channel", channelId.write r.channel),
      ("effective_time", (epoch lib).write r.epoch),
      ("response", (instrumentResponse lib).write r.response)])
    fun ms => do
      return ⟨← ms.required channelId "channel", ← ms.required (epoch lib) "effective_time",
        ← ms.required (instrumentResponse lib) "response"⟩

def catalog : Form Directory.Catalog :=
  structured ["stations", "channels", "seismograms", "responses"]
    (fun c => [("stations", (list (station lib)).write c.stations),
      ("channels", (list (channel lib)).write c.channels),
      ("seismograms", (list (record lib)).write c.records),
      ("responses", (list (responseEpoch lib)).write c.responses)])
    fun ms => do
      return ⟨← ms.withDefault (list (station lib)) "stations" [],
        ← ms.withDefault (list (channel lib)) "channels" [],
        ← ms.withDefault (list (record lib)) "seismograms" [],
        ← ms.withDefault (list (responseEpoch lib)) "responses" []⟩

end Seismogram.Stored
