import Seismogram.Directory.Service

/-!
# Catalogs

A catalog is a directory held in memory: four lists that entries are only ever appended to. It
answers by scanning its lists in stored order and fails only where no response is found.
-/

namespace Seismogram.Directory

open Time

structure Catalog where
  stations : List Station
  channels : List Channel
  records : List Record
  responses : List ResponseEpoch

namespace Catalog

def empty : Catalog := ⟨[], [], [], []⟩

def addStation (c : Catalog) (s : Station) : Catalog := { c with stations := c.stations ++ [s] }

def addChannel (c : Catalog) (ch : Channel) : Catalog := { c with channels := c.channels ++ [ch] }

def addRecord (c : Catalog) (r : Record) : Catalog := { c with records := c.records ++ [r] }

def addResponse (c : Catalog) (r : ResponseEpoch) : Catalog :=
  { c with responses := c.responses ++ [r] }

/-- The distinct members of a list in the order in which they first appear, added to those that were
found before. -/
def distinct (found : List String) : List String → List String
  | [] => found
  | code :: rest => distinct (if found.contains code then found else found ++ [code]) rest

theorem mem_distinct {found codes : List String} {code : String} :
    code ∈ distinct found codes ↔ code ∈ found ∨ code ∈ codes := by
  induction codes generalizing found with
  | nil => simp [distinct]
  | cons first rest ih =>
    rw [distinct, ih]
    by_cases known : first ∈ found
    · have kept : found.contains first = true := by simpa using known
      rw [if_pos kept, List.mem_cons]
      constructor
      · rintro (old | new)
        · exact .inl old
        · exact .inr (.inr new)
      · rintro (old | rfl | new)
        · exact .inl old
        · exact .inl known
        · exact .inr new
    · have added : ¬ found.contains first = true := by simpa using known
      rw [if_neg added, List.mem_append, List.mem_singleton, List.mem_cons, or_assoc]

theorem distinct_append_singleton (found codes : List String) (code : String) :
    distinct found (codes ++ [code]) =
      distinct found codes ++ if code ∈ distinct found codes then [] else [code] := by
  induction codes generalizing found with
  | nil =>
    by_cases known : code ∈ found
    · simp [distinct, known]
    · simp [distinct, known]
  | cons first rest ih => exact ih _

/-- The network codes of the stations, each once, in the order in which they first appear. -/
def networkCodes (c : Catalog) : List String := distinct [] (c.stations.map (·.id.network))

def stationsOf (c : Catalog) (network : Option String) : List Station :=
  c.stations.filter fun s => network.all fun code => decide (s.id.network = code)

def channelsByCode (c : Catalog) (id : ChannelId) : List Channel :=
  c.channels.filter fun ch => decide (ch.id = id)

def channelsOf (c : Catalog) (station : StationId) : List Channel :=
  c.channels.filter fun ch => ch.belongsTo station

/-- The records of each window in turn; a record that several windows hold is listed for each. -/
def recordsIn (c : Catalog) (windows : List Window) : List Record :=
  windows.flatMap fun w => c.records.filter w.holds

/-- The response of a channel at an instant: that of the first entry in effect. -/
def response? (c : Catalog) (channel : ChannelId) (time : Instant) : Option InstrumentResponse :=
  (c.responses.find? fun r => decide (r.channel = channel) && r.epoch.covers time).map (·.response)

def service (c : Catalog) : Service where
  networkCodes := .ok c.networkCodes
  stations network := .ok (c.stationsOf network)
  channelsByCode id := .ok (c.channelsByCode id)
  channelsOf station := .ok (c.channelsOf station)
  records windows := .ok (c.recordsIn windows)
  response channel time :=
    match c.response? channel time with
    | some response => .ok response
    | none => .error .noData

end Catalog
end Seismogram.Directory
