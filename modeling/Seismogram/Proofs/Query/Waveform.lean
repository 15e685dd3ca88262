import Seismogram.Directory.Catalog
import Seismogram.Proofs.Assembly.Settling
import Seismogram.Query

/-!
# The records of a waveform query

A waveform query asks for one window of time for each entry of its channel, and all these windows
are alike. A catalog therefore hands over every stored record of the window once for each entry, in
stored order: no record is lost, but a channel with several epochs has its records repeated.
-/

namespace Seismogram

open Time Directory

namespace Directory.Catalog

variable (c : Catalog)

def stored (id : ChannelId) (start stop : Instant) : List Record :=
  c.records.filter fun r => decide (r.channel = id ∧ start ≤ r.start ∧ r.start < stop)

theorem filter_holds (id : ChannelId) (start stop : Instant) :
    c.records.filter (Window.holds ⟨id, start, stop⟩) = c.stored id start stop :=
  List.filter_congr fun r _ => by simp [Window.holds, Bool.and_assoc]

/-- The entries of a channel make the same window as often as there are entries. -/
theorem windows_channelsByCode (id : ChannelId) (start stop : Instant) :
    ((c.channelsByCode id).map fun found => (⟨found.id, start, stop⟩ : Window)) =
      List.replicate (c.channelsByCode id).length ⟨id, start, stop⟩ := by
  rw [List.map_eq_replicate_iff]
  intro found member
  have same : found.id = id := of_decide_eq_true (List.mem_filter.1 member).2
  rw [same]

theorem recordsIn_replicate (n : Nat) (id : ChannelId) (start stop : Instant) :
    c.recordsIn (List.replicate n ⟨id, start, stop⟩) =
      (List.replicate n (c.stored id start stop)).flatten := by
  rw [recordsIn, List.flatMap_def, List.map_replicate, filter_holds]

end Directory.Catalog

/-- A list repeated is no longer than the list only if it is repeated once or empty. -/
theorem length_repeated_eq_iff {α : Type} {n : Nat} {as : List α} :
    n * as.length = as.length ↔ n = 1 ∨ as = [] := by
  cases as with
  | nil => simp
  | cons a as => simp [Nat.mul_eq_right (Nat.succ_ne_zero as.length)]

theorem flatten_replicate_eq_self_iff {α : Type} {n : Nat} {as : List α} :
    (List.replicate n as).flatten = as ↔ n = 1 ∨ as = [] := by
  constructor
  · intro same
    refine length_repeated_eq_iff.1 ?_
    simpa using congrArg List.length same
  · rintro (rfl | rfl)
    · simp
    · exact List.flatten_replicate_nil

namespace Client

/-- The records that a waveform query hands over to be assembled. -/
def fetch (c : Client) (network station location channel : String) (start stop : Instant) :
    Outcome (List Record) := do
  let id : ChannelId := ⟨network, station, siteOf location, channel⟩
  let request := waveformRequest id start stop
  let channels ← ask request (.channelsByCode id) (c.service.channelsByCode id)
  if channels.isEmpty then noData request
  else
    let windows := channels.map fun found => (⟨found.id, start, stop⟩ : Window)
    let records ← ask request (.records windows) (c.service.records windows)
    Outcome.log .debug s!"{request}: {records.length} record(s) fetched"
    return records

theorem waveform_eq_fetch (c : Client) (network station location channel : String)
    (start stop : Instant) :
    c.waveform network station location channel start stop =
      c.fetch network station location channel start stop >>= c.assembler.assemble := by
  rw [waveform, fetch]
  simp only [bind_assoc]
  refine bind_congr fun channels => ?_
  split
  · rfl
  · simp only [bind_assoc, pure_bind]

/-- A catalog answers with no data where it has no entry of the channel, and otherwise hands over
what it stores of the window, once for each entry. -/
theorem result_fetch_catalog (catalog : Catalog) (codec : Codec) (settings : Assembly.Settings)
    (converter : Converter) (network station location channel : String) (start stop : Instant) :
    let id : ChannelId := ⟨network, station, siteOf location, channel⟩
    (fetch ⟨catalog.service, codec, settings, converter⟩ network station location channel
        start stop).result =
      if (catalog.channelsByCode id).length = 0 then
        .error (.directory (waveformRequest id start stop) .noData)
      else
        .ok (List.replicate (catalog.channelsByCode id).length
          (catalog.stored id start stop)).flatten := by
  intro id
  have answer : (ask (waveformRequest id start stop) (.channelsByCode id)
      (catalog.service.channelsByCode id)).result = .ok (catalog.channelsByCode id) := rfl
  rw [← Catalog.recordsIn_replicate, ← Catalog.windows_channelsByCode, fetch,
    Outcome.bind_of_ok answer]
  cases catalog.channelsByCode id with
  | nil => rfl
  | cons first others => rfl

/-- Where errors are collected, a report accounts for each stored record of the window once for
each entry of the channel. -/
theorem exists_report_waveform_iff (catalog : Catalog) (codec : Codec)
    (settings : Assembly.Settings) (converter : Converter)
    (network station location channel : String) (start stop : Instant) (accounted : Nat) :
    let id : ChannelId := ⟨network, station, siteOf location, channel⟩
    let entries := (catalog.channelsByCode id).length
    let stored := catalog.stored id start stop
    let collecting : Client :=
      ⟨catalog.service, codec, { settings with policy := .collectErrors }, converter⟩
    (∃ report,
        (collecting.waveform network station location channel start stop).result = .ok report ∧
        report.traces.length + report.failures.length + report.skipped = accounted) ↔
      entries ≠ 0 ∧ entries * stored.length = accounted := by
  intro id entries stored collecting
  have handed : (collecting.fetch network station location channel start stop).result =
      if entries = 0 then .error (.directory (waveformRequest id start stop) .noData)
      else .ok (List.replicate entries stored).flatten := result_fetch_catalog ..
  rw [waveform_eq_fetch, Outcome.result_bind, handed]
  by_cases known : entries = 0
  · simp [known, Except.bind]
  · have assembled (records : List Record) : (collecting.assembler.assemble records).result =
        .ok (Assembly.Report.ofRecords codec settings.host records) :=
      Assembly.Assembler.result_assembleUnder_eq ..
    have repeated : (List.replicate entries stored).flatten.length = entries * stored.length := by
      simp
    have parts := Assembly.Report.length_ofRecords codec settings.host
      (List.replicate entries stored).flatten
    rw [if_neg known, Except.bind, assembled, ← repeated, ← parts]
    simp [known]

/-- When a waveform query on a catalog assembles every stored record of its window once, in stored
order: the channel has to have a single entry, or no record in the window. In general each record
is assembled once for every entry. So it is with the number of records that a report accounts
for where errors are collected. -/
theorem waveform_once_iff (catalog : Catalog) (codec : Codec) (settings : Assembly.Settings)
    (converter : Converter) (network station location channel : String) (start stop : Instant) :
    let id : ChannelId := ⟨network, station, siteOf location, channel⟩
    let entries := (catalog.channelsByCode id).length
    let stored := catalog.stored id start stop
    let client : Client := ⟨catalog.service, codec, settings, converter⟩
    let collecting : Client :=
      ⟨catalog.service, codec, { settings with policy := .collectErrors }, converter⟩
    let fetched := client.fetch network station location channel start stop
    client.waveform network station location channel start stop =
        fetched >>= client.assembler.assemble ∧
      fetched.result =
        (if entries = 0 then .error (.directory (waveformRequest id start stop) .noData)
        else .ok (List.replicate entries stored).flatten) ∧
      (fetched.result = .ok stored ↔ entries ≠ 0 ∧ (entries = 1 ∨ stored = [])) ∧
      ((∃ report,
          (collecting.waveform network station location channel start stop).result = .ok report ∧
          report.traces.length + report.failures.length + report.skipped = stored.length) ↔
        entries ≠ 0 ∧ (entries = 1 ∨ stored = [])) := by
  intro id entries stored client collecting fetched
  have handed : fetched.result =
      if entries = 0 then .error (.directory (waveformRequest id start stop) .noData)
      else .ok (List.replicate entries stored).flatten := result_fetch_catalog ..
  refine ⟨waveform_eq_fetch .., handed, ?_, ?_⟩
  · rw [handed, ← flatten_replicate_eq_self_iff]
    by_cases known : entries = 0
    · simp [known]
    · rw [if_neg known, Except.ok.injEq]
      exact (and_iff_right known).symm
  · rw [← length_repeated_eq_iff]
    exact exists_report_waveform_iff ..

/-! ### A channel with two epochs -/

def recorder : ChannelId := ⟨"GE", "APE", blankSite, "SHZ"⟩

def midnight (day : Int) (first : firstDay ≤ day) (last : day ≤ lastDay) : Instant :=
  ⟨day, 0, 0, first, last, by decide, by decide⟩

/-- Four samples that begin on 2003-06-20. -/
def recording : Record :=
  ⟨recorder, midnight 12223 (by decide) (by decide), 4, ⟨0.08, .second, 0, 1.0, 1⟩,
    [⟨10, .big, 4, [1, 0, 0, 0, 0, 0, 0, 1, 0, 0, 0, 4, 0, 1, 1, 1] ++ List.replicate 48 0⟩]⟩

/-- One record of a channel with an epoch up to 2000-01-01 and one from then on. -/
def twoEpochs : Catalog :=
  let turn := midnight 10957 (by decide) (by decide)
  ⟨[], [⟨recorder, midnight 10227 (by decide) (by decide), some turn⟩, ⟨recorder, turn, none⟩],
    [recording], []⟩

/-- The one record of the window is assembled twice. -/
theorem fetch_twoEpochs :
    let client : Client :=
      ⟨twoEpochs.service, .native .little, ⟨.little, .collectErrors, .sequential⟩, .standard⟩
    let start := midnight 12223 (by decide) (by decide)
    let stop := midnight 12224 (by decide) (by decide)
    twoEpochs.stored recorder start stop = [recording] ∧
      (client.fetch "GE" "APE" "" "SHZ" start stop).result = .ok [recording, recording] ∧
      ∃ report, (client.waveform "GE" "APE" "" "SHZ" start stop).result = .ok report ∧
        report.traces.length + report.failures.length + report.skipped = 2 := by
  refine ⟨rfl, rfl, ?_⟩
  have known : (twoEpochs.channelsByCode recorder).length ≠ 0 := by decide
  exact (exists_report_waveform_iff twoEpochs (.native .little)
    ⟨.little, .collectErrors, .sequential⟩ .standard ..).2 ⟨known, rfl⟩

end Client
end Seismogram
