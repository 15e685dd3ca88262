import Seismogram.Proofs.Query.Consultation
import Seismogram.Proofs.Query.Waveform

/-!
# Growing catalogs

Entries are only ever added to a catalog, at the ends of its four lists. What a single entry
changes is said of the whole service at once: the service after the addition is the service before
it but for the answers that are named, so every other question is answered as before. A run of
additions then keeps every list that was ever answered, in its order, and every response that was
ever found.
-/

namespace Seismogram

open Time Directory

namespace Directory

/-- What can be added to a catalog. -/
inductive Entry where
  | station (s : Station)
  | channel (ch : Channel)
  | record (r : Record)
  | response (r : ResponseEpoch)

namespace Catalog

def add (c : Catalog) : Entry → Catalog
  | .station s => c.addStation s
  | .channel ch => c.addChannel ch
  | .record r => c.addRecord r
  | .response r => c.addResponse r

def addAll (c : Catalog) (entries : List Entry) : Catalog := entries.foldl add c

theorem filter_append_singleton {α : Type} (p : α → Bool) (as : List α) (a : α) :
    (as ++ [a]).filter p = as.filter p ++ if p a then [a] else [] := by
  rw [List.filter_append, List.filter_cons, List.filter_nil]

variable (c : Catalog)

/-- A station is listed at the end of all stations and of those of its network. -/
theorem service_addStation (s : Station) :
    (c.addStation s).service =
      { c.service with
        networkCodes := .ok (c.networkCodes ++
          if s.id.network ∈ c.networkCodes then [] else [s.id.network])
        stations := fun network => .ok (c.stationsOf network ++
          if network = none ∨ network = some s.id.network then [s] else []) } := by
  have codes : (c.addStation s).networkCodes = c.networkCodes ++
      if s.id.network ∈ c.networkCodes then [] else [s.id.network] := by
    rw [networkCodes, addStation, List.map_append]
    exact distinct_append_singleton ..
  have listed (network : Option String) : (c.addStation s).stationsOf network =
      c.stationsOf network ++ if network = none ∨ network = some s.id.network then [s] else [] := by
    rw [stationsOf, addStation, filter_append_singleton]
    cases network with
    | none => simp [stationsOf]
    | some code => simp [stationsOf, eq_comm]
  simp only [service, codes, listed]
  rfl

/-- A channel is found at the end of what its codes find, and of what its station has. -/
theorem service_addChannel (ch : Channel) :
    (c.addChannel ch).service =
      { c.service with
        channelsByCode := fun id => .ok (c.channelsByCode id ++ if ch.id = id then [ch] else [])
        channelsOf := fun station => .ok (c.channelsOf station ++
          if ch.id.network = station.network ∧ ch.id.station = station.station then [ch]
          else []) } := by
  have byCode (id : ChannelId) : (c.addChannel ch).channelsByCode id =
      c.channelsByCode id ++ if ch.id = id then [ch] else [] := by
    rw [channelsByCode, addChannel, filter_append_singleton]
    simp [channelsByCode]
  have ofStation (station : StationId) : (c.addChannel ch).channelsOf station =
      c.channelsOf station ++
        if ch.id.network = station.network ∧ ch.id.station = station.station then [ch] else [] := by
    rw [channelsOf, addChannel, filter_append_singleton]
    simp [channelsOf, Channel.belongsTo]
  simp only [service, byCode, ofStation]
  rfl

theorem recordsIn_addRecord (r : Record) (windows : List Window) :
    (c.addRecord r).recordsIn windows = windows.flatMap fun w =>
      c.recordsIn [w] ++
        if r.channel = w.channel ∧ w.start ≤ r.start ∧ r.start < w.stop then [r] else [] := by
  have block (w : Window) : (c.addRecord r).records.filter w.holds = c.recordsIn [w] ++
      if r.channel = w.channel ∧ w.start ≤ r.start ∧ r.start < w.stop then [r] else [] := by
    rw [addRecord, filter_append_singleton, recordsIn, List.flatMap_cons, List.flatMap_nil,
      List.append_nil]
    simp [Window.holds, and_assoc]
  simp only [recordsIn, block]

/-- A record that begins in none of the windows is not among theirs. -/
theorem recordsIn_addRecord_of_outside {r : Record} {windows : List Window}
    (outside : ∀ w ∈ windows, w.holds r = false) :
    (c.addRecord r).recordsIn windows = c.recordsIn windows := by
  rw [recordsIn, recordsIn, List.flatMap_def, List.flatMap_def]
  refine congrArg List.flatten (List.map_congr_left ?_)
  intro w member
  rw [addRecord, filter_append_singleton, outside w member, if_neg Bool.false_ne_true,
    List.append_nil]

/-- A record is handed over at the end of each block that answers a window which holds it. -/
theorem service_addRecord (r : Record) :
    (c.addRecord r).service =
      { c.service with
        records := fun windows => .ok (windows.flatMap fun w =>
          c.recordsIn [w] ++
            if r.channel = w.channel ∧ w.start ≤ r.start ∧ r.start < w.stop then [r]
            else []) } := by
  simp only [service, recordsIn_addRecord]
  rfl

/-- A response is only looked at where none was found before it. -/
theorem service_addResponse (r : ResponseEpoch) :
    (c.addResponse r).service =
      { c.service with
        response := fun channel time =>
          match c.service.response channel time with
          | .ok response => .ok response
          | .error fault =>
            if r.channel = channel ∧ (r.epoch.start = time ∨
                r.epoch.start < time ∧ ∀ stop ∈ r.epoch.stop, time < stop) then .ok r.response
            else .error fault } := by
  have found (channel : ChannelId) (time : Instant) : (c.addResponse r).response? channel time =
      (c.response? channel time).or
        (if r.channel = channel ∧ (r.epoch.start = time ∨
            r.epoch.start < time ∧ ∀ stop ∈ r.epoch.stop, time < stop) then some r.response
        else none) := by
    rw [response?, addResponse, List.find?_append, Option.map_or, response?, List.find?_singleton]
    congr 1
    simp only [Epoch.covers, Bool.and_eq_true, Bool.or_eq_true, decide_eq_true_eq,
      Epoch.contains_iff]
    split <;> rfl
  simp only [service, found]
  congr 1
  funext channel time
  cases c.response? channel time with
  | some response => rfl
  | none =>
    rw [Option.none_or]
    by_cases covered : r.channel = channel ∧ (r.epoch.start = time ∨
        r.epoch.start < time ∧ ∀ stop ∈ r.epoch.stop, time < stop)
    · simp only [if_pos covered]
    · simp only [if_neg covered]

end Catalog

/-- A list that was answered is part of a later answer, in its order. -/
def Kept {α : Type} (before after : Except Fault (List α)) : Prop :=
  ∀ as, before = .ok as → ∃ bs, after = .ok bs ∧ as.Sublist bs

namespace Kept

variable {α : Type} {before middle after : Except Fault (List α)}

theorem refl (answer : Except Fault (List α)) : Kept answer answer :=
  fun as answered => ⟨as, answered, .refl as⟩

theorem trans (first : Kept before middle) (last : Kept middle after) : Kept before after := by
  intro as answered
  obtain ⟨bs, again, grown⟩ := first as answered
  obtain ⟨cs, finally_, further⟩ := last bs again
  exact ⟨cs, finally_, grown.trans further⟩

theorem of_sublist {as bs : List α} (grown : as.Sublist bs) : Kept (.ok as) (.ok bs) := by
  rintro _ ⟨⟩
  exact ⟨bs, rfl, grown⟩

end Kept

/-- That answers only grow from one service to another: no list loses a member or has its members
moved, and no response is replaced. -/
structure Service.GrowsInto (before after : Service) : Prop where
  networkCodes : Kept before.networkCodes after.networkCodes
  stations : ∀ network, Kept (before.stations network) (after.stations network)
  channelsByCode : ∀ id, Kept (before.channelsByCode id) (after.channelsByCode id)
  channelsOf : ∀ station, Kept (before.channelsOf station) (after.channelsOf station)
  records : ∀ windows, Kept (before.records windows) (after.records windows)
  response : ∀ channel time response,
    before.response channel time = .ok response → after.response channel time = .ok response

namespace Service.GrowsInto

variable {before middle after : Service}

theorem refl (s : Service) : s.GrowsInto s where
  networkCodes := .refl _
  stations _ := .refl _
  channelsByCode _ := .refl _
  channelsOf _ := .refl _
  records _ := .refl _
  response _ _ _ found := found

theorem trans (first : before.GrowsInto middle) (last : middle.GrowsInto after) :
    before.GrowsInto after where
  networkCodes := first.networkCodes.trans last.networkCodes
  stations network := (first.stations network).trans (last.stations network)
  channelsByCode id := (first.channelsByCode id).trans (last.channelsByCode id)
  channelsOf station := (first.channelsOf station).trans (last.channelsOf station)
  records windows := (first.records windows).trans (last.records windows)
  response channel time response found :=
    last.response channel time response (first.response channel time response found)

end Service.GrowsInto

namespace Catalog

/-- The records of each window stay in front of what is added behind them. -/
theorem sublist_recordsIn (c : Catalog) (windows : List Window) (added : Window → List Record) :
    (c.recordsIn windows).Sublist (windows.flatMap fun w => c.recordsIn [w] ++ added w) := by
  induction windows with
  | nil => exact .refl []
  | cons w rest ih =>
    have block : c.recordsIn [w] = c.records.filter w.holds := List.append_nil _
    rw [List.flatMap_cons, block]
    exact (List.sublist_append_left _ _).append ih

theorem growsInto_add (c : Catalog) (entry : Entry) :
    c.service.GrowsInto (c.add entry).service := by
  have same := Service.GrowsInto.refl c.service
  cases entry with
  | station s =>
    rw [add, service_addStation]
    exact { same with
      networkCodes := .of_sublist (List.sublist_append_left _ _)
      stations := fun network => .of_sublist (List.sublist_append_left _ _) }
  | channel ch =>
    rw [add, service_addChannel]
    exact { same with
      channelsByCode := fun id => .of_sublist (List.sublist_append_left _ _)
      channelsOf := fun station => .of_sublist (List.sublist_append_left _ _) }
  | record r =>
    rw [add, service_addRecord]
    exact { same with
      records := fun windows => .of_sublist (c.sublist_recordsIn windows _) }
  | response r =>
    rw [add, service_addResponse]
    refine { same with response := ?_ }
    intro channel time response found
    simp only [found]

theorem growsInto_addAll (c : Catalog) (entries : List Entry) :
    c.service.GrowsInto (c.addAll entries).service := by
  induction entries generalizing c with
  | nil => exact .refl _
  | cons entry rest ih => exact (c.growsInto_add entry).trans (ih (c.add entry))

end Catalog
end Directory

/-! ### Queries on a growing catalog -/

/-- Whether a query on a catalog assembles a record once the catalog has it: a waveform query for
the channel of the record, which the catalog has to know, and a window that holds the record's
start. -/
def Query.Draws (c : Catalog) (r : Record) : Query → Prop
  | .waveform network station location channel start stop =>
    let id : ChannelId := ⟨network, station, Client.siteOf location, channel⟩
    c.channelsByCode id ≠ [] ∧ r.channel = id ∧ start ≤ r.start ∧ r.start < stop
  | _ => False

namespace Client

variable (codec : Codec) (settings : Assembly.Settings) (converter : Converter)

/-- What a waveform query hands over is settled by two answers of the service. -/
theorem fetch_congr {c d : Client} {network station location channel : String}
    {start stop : Instant}
    (channels : c.service.channelsByCode ⟨network, station, siteOf location, channel⟩ =
      d.service.channelsByCode ⟨network, station, siteOf location, channel⟩)
    (records : ∀ found,
      c.service.channelsByCode ⟨network, station, siteOf location, channel⟩ = .ok found →
      c.service.records (found.map fun entry => ⟨entry.id, start, stop⟩) =
        d.service.records (found.map fun entry => ⟨entry.id, start, stop⟩)) :
    c.fetch network station location channel start stop =
      d.fetch network station location channel start stop := by
  let id : ChannelId := ⟨network, station, siteOf location, channel⟩
  rw [fetch, fetch, ← channels]
  cases answered : c.service.channelsByCode id with
  | error fault => rfl
  | ok found =>
    have answer : (ask (waveformRequest id start stop) (.channelsByCode id) (.ok found)).result =
      .ok found := rfl
    rw [Outcome.bind_of_ok answer, Outcome.bind_of_ok answer]
    dsimp only
    rw [records found answered]

/-- A record outside the window of a waveform query is not handed over by it. -/
theorem fetch_addRecord {c : Catalog} {r : Record} {network station location channel : String}
    {start stop : Instant}
    (outside : ¬ (Query.waveform network station location channel start stop).Draws c r) :
    fetch ⟨(c.addRecord r).service, codec, settings, converter⟩ network station location channel
        start stop =
      fetch ⟨c.service, codec, settings, converter⟩ network station location channel start
        stop := by
  refine fetch_congr rfl ?_
  rintro _ ⟨⟩
  refine congrArg Except.ok (c.recordsIn_addRecord_of_outside ?_)
  intro w member
  obtain ⟨found, listed, rfl⟩ := List.mem_map.1 member
  have same := of_decide_eq_true (List.mem_filter.1 listed).2
  rw [Bool.eq_false_iff]
  intro held
  simp only [Window.holds, same, Bool.and_eq_true, decide_eq_true_eq] at held
  exact outside ⟨List.ne_nil_of_mem listed, held.1.1, held.1.2, held.2⟩

/-- A record that a query does not assemble changes nothing about the query: neither what it asks
and does nor what it is answered with. -/
theorem answer_addRecord {c : Catalog} {r : Record} {q : Query} (outside : ¬ q.Draws c r) :
    answer ⟨(c.addRecord r).service, codec, settings, converter⟩ q =
      answer ⟨c.service, codec, settings, converter⟩ q := by
  cases q with
  | networkIds => rfl
  | stationIds network => rfl
  | coordinates network station time => rfl
  | poleZero network station => rfl
  | waveform network station location channel start stop =>
    rw [answer, answer, waveform_eq_fetch, waveform_eq_fetch, fetch_addRecord _ _ _ outside]
    rfl

/-- Each kind of entry adds to the answers that name it, at their ends, and to no others. A station
is added to the list of all stations and that of its network, and its network's code where it is
new; a channel to what its codes and its station find; a record to the block of each window that
holds it; a response to the lookups of its channel and its epoch that found nothing before. So no
number of additions takes a member from a list or replaces a response, and a record leaves every
query as it is but the waveform queries that assemble it. -/
theorem additions_onlyAppend (c : Catalog) :
    (∀ s : Station, (c.add (.station s)).service =
      { c.service with
        networkCodes := .ok (c.networkCodes ++
          if s.id.network ∈ c.networkCodes then [] else [s.id.network])
        stations := fun network => .ok (c.stationsOf network ++
          if network = none ∨ network = some s.id.network then [s] else []) }) ∧
      (∀ ch : Channel, (c.add (.channel ch)).service =
        { c.service with
          channelsByCode := fun id => .ok (c.channelsByCode id ++ if ch.id = id then [ch] else [])
          channelsOf := fun station => .ok (c.channelsOf station ++
            if ch.id.network = station.network ∧ ch.id.station = station.station then [ch]
            else []) }) ∧
      (∀ r : Record, (c.add (.record r)).service =
        { c.service with
          records := fun windows => .ok (windows.flatMap fun w =>
            c.recordsIn [w] ++
              if r.channel = w.channel ∧ w.start ≤ r.start ∧ r.start < w.stop then [r]
              else []) }) ∧
      (∀ r : ResponseEpoch, (c.add (.response r)).service =
        { c.service with
          response := fun channel time =>
            match c.service.response channel time with
            | .ok response => .ok response
            | .error fault =>
              if r.channel = channel ∧ (r.epoch.start = time ∨
                  r.epoch.start < time ∧ ∀ stop ∈ r.epoch.stop, time < stop) then .ok r.response
              else .error fault }) ∧
      (∀ entries, c.service.GrowsInto (c.addAll entries).service) ∧
      ∀ codec settings converter (r : Record) (q : Query), ¬ q.Draws c r →
        answer ⟨(c.add (.record r)).service, codec, settings, converter⟩ q =
          answer ⟨c.service, codec, settings, converter⟩ q := by
  refine ⟨c.service_addStation, c.service_addChannel, c.service_addRecord, c.service_addResponse,
    c.growsInto_addAll, ?_⟩
  intro codec settings converter r q outside
  exact answer_addRecord codec settings converter outside

end Client
end Seismogram
