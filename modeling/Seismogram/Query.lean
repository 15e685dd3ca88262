import Seismogram.Assembly.Batch
import Seismogram.Extraction.Coordinates
import Seismogram.Extraction.PoleZero
import Seismogram.Time.Stamp

/-!
# Queries

A client puts questions to a directory service and hands what it gets to assembly or extraction. A
fault of the service ends the query and is returned as it is, together with the text of the request.
Where the service answers but nothing matches, the fault is that there are no data.
-/

namespace Seismogram

open Time Directory

/-- A directory service with what is needed to work on its answers. -/
structure Client where
  service : Service
  codec : Codec
  settings : Assembly.Settings
  converter : Converter

namespace Client

/-- The site code of a blank location. -/
def blankSite : String := "  "

def siteOf (location : String) : String :=
  if Text.trim location = "" then blankSite else location

/-- Puts a question to the service on behalf of a request. -/
def ask {α : Type} (request : String) (question : Question) (answer : Except Fault α) : Outcome α :=
  ⟨[.ask question], answer.mapError (.directory request)⟩

def noData {α : Type} (request : String) : Outcome α := .fail (.directory request .noData)

def assembler (c : Client) : Assembly.Assembler := ⟨c.codec, c.settings⟩

def waveformRequest (id : ChannelId) (start stop : Instant) : String :=
  s!"waveform {id.text} {Stamp.write start} - {Stamp.write stop}"

/-- The report on the records of a channel that begin in a window of time. Every entry of the
channel in the directory makes a request of its own. -/
def waveform (c : Client) (network station location channel : String) (start stop : Instant) :
    Outcome Assembly.Report := do
  let id : ChannelId := ⟨network, station, siteOf location, channel⟩
  let request := waveformRequest id start stop
  let channels ← ask request (.channelsByCode id) (c.service.channelsByCode id)
  if channels.isEmpty then noData request
  else
    let windows := channels.map fun found => (⟨found.id, start, stop⟩ : Window)
    let records ← ask request (.records windows) (c.service.records windows)
    Outcome.log .debug s!"{request}: {records.length} record(s) fetched"
    c.assembler.assemble records

def networkIds (c : Client) : Outcome (List String) :=
  ask "network ids" .networkCodes c.service.networkCodes

/-- The station codes of a network, or of all networks, one for each entry. -/
def stationIds (c : Client) (network : Option String) : Outcome (List String) := do
  let request := "station ids " ++ network.getD "*"
  let stations ← ask request (.stations network) (c.service.stations network)
  return stations.map (·.id.station)

/-- The coordinates of a station at an instant, which has to lie inside exactly one of its
epochs. -/
def coordinates (c : Client) (network station : String) (time : Instant) :
    Outcome (Extraction Location) := do
  let request := s!"coordinates {network}.{station} at {Stamp.write time}"
  let stations ← ask request (.stations (some network)) (c.service.stations (some network))
  match stations.filter fun s => decide (s.id.station = station) && s.epoch.contains time with
  | [] => noData request
  | [found] => found.location.coordinates
  | several => .fail (.directory request (.ambiguous several.length))

/-- The poles and zeros of the first channel of a station, at the start of that channel's epoch. -/
def poleZero (c : Client) (network station : String) : Outcome PoleZeroResponse := do
  let request := s!"paz {network}.{station}"
  let stations ← ask request (.stations (some network)) (c.service.stations (some network))
  match stations.find? fun s => decide (s.id.station = station) with
  | none => noData request
  | some found =>
    let channels ← ask request (.channelsOf found.id) (c.service.channelsOf found.id)
    match channels with
    | [] => noData request
    | first :: _ =>
      let response ← ask request (.response first.id first.epoch.start)
        (c.service.response first.id first.epoch.start)
      Outcome.log .warn s!"{request}: pole/zero extraction is experimental"
      response.poleZero c.converter

end Client
end Seismogram
