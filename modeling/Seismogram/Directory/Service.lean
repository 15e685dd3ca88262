import Seismogram.Directory.Fault
import Seismogram.Station

/-!
# Directory services

A directory service answers six kinds of question, about networks, stations, channels,
records and responses, and may fail at each of them.
-/

namespace Seismogram.Directory

open Time

/-- A question to a directory service, with its arguments. -/
inductive Question where
  | networkCodes
  | stations (network : Option String)
  | channelsByCode (id : ChannelId)
  | channelsOf (station : StationId)
  | records (windows : List Window)
  | response (channel : ChannelId) (time : Instant)
  deriving DecidableEq

inductive Method where
  | networkCodes
  | stations
  | channelsByCode
  | channelsOf
  | records
  | response
  deriving DecidableEq, Repr

/-- A directory service, as a function from each question to its answer. -/
structure Service where
  networkCodes : Except Fault (List String)
  stations : Option String → Except Fault (List Station)
  channelsByCode : ChannelId → Except Fault (List Channel)
  channelsOf : StationId → Except Fault (List Channel)
  records : List Window → Except Fault (List Record)
  response : ChannelId → Instant → Except Fault InstrumentResponse

/-- An answer, unless a fault is planted in front of it. -/
def planted {α : Type} (fault : Option Fault) (answer : Except Fault α) : Except Fault α :=
  match fault with
  | some fault => .error fault
  | none => answer

/-- A service in front of which faults are planted: a method with a fault fails so, whatever its
arguments. -/
def Service.withFaults (s : Service) (faults : Method → Option Fault) : Service where
  networkCodes := planted (faults .networkCodes) s.networkCodes
  stations network := planted (faults .stations) (s.stations network)
  channelsByCode id := planted (faults .channelsByCode) (s.channelsByCode id)
  channelsOf station := planted (faults .channelsOf) (s.channelsOf station)
  records windows := planted (faults .records) (s.records windows)
  response channel time := planted (faults .response) (s.response channel time)

end Seismogram.Directory
