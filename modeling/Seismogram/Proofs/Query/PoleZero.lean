import Seismogram.Proofs.Query.Consultation
import Seismogram.Proofs.Time.Epochs

/-!
# The way to the poles and zeros of a station

A pole/zero query is a chain of first matches: the first channel of a station, the first response in
effect when that channel begins, and in it the first filter of the first stage. Each link is found
in a list that may hold much else, and the query depends on the links alone.
-/

namespace Seismogram

open Time Directory

/-! ### The beginning of a response -/

namespace InstrumentResponse

/-- The normalization of the first stage with its first filter, as far as there are any. -/
def lead? (r : InstrumentResponse) : Option (Option Normalization × Option Filter) :=
  r.stages.head?.map fun stage => (stage.normalization, stage.filters.head?)

theorem lead?_of_cons {r : InstrumentResponse} {stage : ResponseStage} {later : List ResponseStage}
    (stages : r.stages = stage :: later) :
    r.lead? = some (stage.normalization, stage.filters.head?) := by
  rw [lead?, stages]
  rfl

/-- The poles and zeros, as far as the beginning of a response tells. -/
def poleZeroOf (converter : Converter) :
    Option (Option Normalization × Option Filter) → Outcome PoleZeroResponse
  | none => .fail (.incompleteResponse .stage)
  | some (_, none) => .fail (.incompleteResponse .filter)
  | some (normalization, some (.poleZero data)) =>
    ⟨[.convert data normalization], converter.convert data normalization⟩
  | some (_, some filter) => .fail (.filterKind filter.kind)

/-- Later stages and later filters do not matter to the poles and zeros. -/
theorem poleZero_eq_poleZeroOf (r : InstrumentResponse) (converter : Converter) :
    r.poleZero converter = poleZeroOf converter r.lead? := by
  obtain ⟨stages⟩ := r
  cases stages with
  | nil => rfl
  | cons stage later =>
    obtain ⟨normalization, filters⟩ := stage
    cases filters with
    | nil => rfl
    | cons filter others => cases filter <;> rfl

/-- What is made of a response: nothing without a first filter that is a pole/zero filter, and else
one conversion of this filter with the normalization of its stage. -/
structure Converts (r : InstrumentResponse) (converter : Converter)
    (o : Outcome PoleZeroResponse) : Prop where
  noStage : r.stages = [] →
    o.result = .error (.incompleteResponse .stage) ∧ Event.conversions o.events = []
  noFilter : ∀ stage later, r.stages = stage :: later → stage.filters = [] →
    o.result = .error (.incompleteResponse .filter) ∧ Event.conversions o.events = []
  otherKind : ∀ stage later filter others, r.stages = stage :: later →
    stage.filters = filter :: others → filter.kind ≠ .poleZero →
    o.result = .error (.filterKind filter.kind) ∧ Event.conversions o.events = []
  poleZero : ∀ stage later data others, r.stages = stage :: later →
    stage.filters = .poleZero data :: others →
    o.result = converter.convert data stage.normalization ∧
      Event.conversions o.events = [(data, stage.normalization)]

theorem converts_poleZero (r : InstrumentResponse) (converter : Converter) :
    r.Converts converter (r.poleZero converter) := by
  rw [poleZero_eq_poleZeroOf]
  refine ⟨?_, ?_, ?_, ?_⟩
  · intro stages
    have lead : r.lead? = none := by rw [lead?, stages, List.head?_nil, Option.map_none]
    rw [lead]
    exact ⟨rfl, rfl⟩
  · intro stage later stages filters
    rw [lead?_of_cons stages, filters]
    exact ⟨rfl, rfl⟩
  · intro stage later filter others stages filters otherKind
    rw [lead?_of_cons stages, filters]
    cases filter with
    | poleZero data => exact absurd rfl otherKind
    | coefficient data => exact ⟨rfl, rfl⟩
    | list data => exact ⟨rfl, rfl⟩
  · intro stage later data others stages filters
    rw [lead?_of_cons stages, filters]
    exact ⟨rfl, rfl⟩

/-- Events before a conversion do not matter to it, as long as none of them is a conversion. -/
theorem Converts.congr {r : InstrumentResponse} {converter : Converter}
    {o p : Outcome PoleZeroResponse} (h : r.Converts converter o) (result : p.result = o.result)
    (conversions : Event.conversions p.events = Event.conversions o.events) :
    r.Converts converter p := by
  refine ⟨?_, ?_, ?_, ?_⟩ <;> rw [result, conversions]
  · exact h.noStage
  · exact h.noFilter
  · exact h.otherKind
  · exact h.poleZero

end InstrumentResponse

/-- The standard converter drops the errors, and takes gain and frequency from the normalization;
without one the gain is 1. -/
theorem Converter.exists_convert_standard (data : PoleZeroData)
    (normalization : Option Normalization) :
    ∃ p, Converter.standard.convert data normalization = .ok p ∧
      p.poles = data.poles.map (fun z => ⟨z.real, z.imaginary⟩) ∧
      p.zeros = data.zeros.map (fun z => ⟨z.real, z.imaginary⟩) ∧
      (normalization = none → p.gain = 1.0 ∧ p.normalizationFrequency = none) ∧
      ∀ n, normalization = some n →
        p.gain = n.factor ∧ p.normalizationFrequency = some n.frequency := by
  refine ⟨_, rfl, rfl, rfl, ?_, ?_⟩
  · rintro rfl
    exact ⟨rfl, rfl⟩
  · rintro n rfl
    exact ⟨rfl, rfl⟩

/-! ### First matches in a catalog -/

namespace Directory.Catalog

def Knows (c : Catalog) (id : StationId) : Prop := ∃ s ∈ c.stations, s.id = id

def firstChannel? (c : Catalog) (id : StationId) : Option Channel :=
  c.channels.find? fun ch => decide (ch.id.network = id.network ∧ ch.id.station = id.station)

/-- The first response of a channel whose epoch begins with that of the channel, or has the start of
it strictly inside. -/
def firstResponse? (c : Catalog) (ch : Channel) : Option ResponseEpoch :=
  c.responses.find? fun r => decide (r.channel = ch.id ∧
    (r.epoch.start = ch.epoch.start ∨ r.epoch.Inside ch.epoch.start))

/-- Two catalogs agree on what leads to the poles and zeros of a station: on whether it is known, on
its first channel, and on how the first response to that channel begins. -/
structure AgreesOn (c d : Catalog) (id : StationId) : Prop where
  known : c.Knows id ↔ d.Knows id
  channel : c.firstChannel? id = d.firstChannel? id
  response : ∀ ch, c.firstChannel? id = some ch →
    (c.firstResponse? ch).map (·.response.lead?) = (d.firstResponse? ch).map (·.response.lead?)

variable (c : Catalog)

theorem find?_stationsOf (network station : String) :
    (c.stationsOf (some network)).find? (fun s => decide (s.id.station = station)) =
      c.stations.find? fun s => decide (s.id = ⟨network, station⟩) := by
  rw [stationsOf, List.find?_filter]
  congr 1
  funext s
  simp [StationId.eq_mk_iff]

theorem exists_find?_stationsOf {network station : String} (known : c.Knows ⟨network, station⟩) :
    ∃ found, (c.stationsOf (some network)).find? (fun s => decide (s.id.station = station)) =
        some found ∧ found.id = ⟨network, station⟩ := by
  obtain ⟨s, stored, same⟩ := known
  have some_found : (c.stations.find? fun s => decide (s.id = ⟨network, station⟩)).isSome := by
    rw [List.find?_isSome]
    exact ⟨s, stored, decide_eq_true same⟩
  obtain ⟨found, first⟩ := Option.isSome_iff_exists.1 some_found
  have same := List.find?_some first
  refine ⟨found, ?_, of_decide_eq_true same⟩
  rw [find?_stationsOf, first]

theorem head?_channelsOf (id : StationId) : (c.channelsOf id).head? = c.firstChannel? id := by
  rw [channelsOf, List.head?_filter, firstChannel?]
  congr 1
  funext ch
  rw [Channel.belongsTo, Bool.decide_and]

theorem response?_eq_firstResponse? (ch : Channel) :
    c.response? ch.id ch.epoch.start = (c.firstResponse? ch).map (·.response) := by
  rw [response?, firstResponse?]
  congr 2
  funext r
  rw [Bool.eq_iff_iff, Bool.and_eq_true, decide_eq_true_iff, decide_eq_true_iff, Epoch.covers_iff]
  exact Iff.rfl

end Directory.Catalog

/-! ### The query -/

namespace Client

/-- What a pole/zero query does once it has a channel, or found none. -/
def poleZeroAt (client : Client) (request : String) : Option Channel → Outcome PoleZeroResponse
  | none => noData request
  | some ch => do
    let response ← ask request (.response ch.id ch.epoch.start)
      (client.service.response ch.id ch.epoch.start)
    Outcome.log .warn s!"{request}: pole/zero extraction is experimental"
    response.poleZero client.converter

section Chain

variable {catalog : Catalog} (codec : Codec) (settings : Assembly.Settings)
  (converter : Converter) (request : String) {ch : Channel}

theorem poleZeroAt_of_noResponse (nothing : catalog.firstResponse? ch = none) :
    poleZeroAt ⟨catalog.service, codec, settings, converter⟩ request (some ch) =
      ⟨[.ask (.response ch.id ch.epoch.start)], .error (.directory request .noData)⟩ := by
  have answered : catalog.service.response ch.id ch.epoch.start = .error .noData := by
    have missing : catalog.response? ch.id ch.epoch.start = none := by
      rw [catalog.response?_eq_firstResponse?, nothing, Option.map_none]
    simp only [Catalog.service, missing]
  rw [poleZeroAt, answered]
  rfl

theorem poleZeroAt_of_response {r : ResponseEpoch} (found : catalog.firstResponse? ch = some r) :
    let made := r.response.poleZero converter
    poleZeroAt ⟨catalog.service, codec, settings, converter⟩ request (some ch) =
      ⟨.ask (.response ch.id ch.epoch.start) ::
          .line ⟨.warn, s!"{request}: pole/zero extraction is experimental"⟩ :: made.events,
        made.result⟩ := by
  intro made
  have answered : catalog.service.response ch.id ch.epoch.start = .ok r.response := by
    have first : catalog.response? ch.id ch.epoch.start = some r.response := by
      rw [catalog.response?_eq_firstResponse?, found, Option.map_some]
    simp only [Catalog.service, first]
  rw [poleZeroAt, answered]
  rfl

variable {first : Option Channel}

theorem poleZeroAt_noData (nothing : first.bind catalog.firstResponse? = none) :
    let o := poleZeroAt ⟨catalog.service, codec, settings, converter⟩ request first
    o.result = .error (.directory request .noData) ∧ Event.conversions o.events = [] := by
  cases first with
  | none => exact ⟨rfl, rfl⟩
  | some ch =>
    rw [poleZeroAt_of_noResponse codec settings converter request nothing]
    exact ⟨rfl, rfl⟩

theorem converts_poleZeroAt {r : ResponseEpoch}
    (found : first.bind catalog.firstResponse? = some r) :
    r.response.Converts converter
      (poleZeroAt ⟨catalog.service, codec, settings, converter⟩ request first) := by
  obtain ⟨ch, rfl, found⟩ := Option.bind_eq_some_iff.1 found
  rw [poleZeroAt_of_response codec settings converter request found]
  exact (r.response.converts_poleZero converter).congr rfl rfl

/-- Of the response to the first channel only the beginning matters. -/
theorem poleZeroAt_congr {other : Catalog} (codec' : Codec) (settings' : Assembly.Settings)
    (same : ∀ ch, first = some ch → (catalog.firstResponse? ch).map (·.response.lead?) =
      (other.firstResponse? ch).map (·.response.lead?)) :
    poleZeroAt ⟨other.service, codec', settings', converter⟩ request first =
      poleZeroAt ⟨catalog.service, codec, settings, converter⟩ request first := by
  cases first with
  | none => rfl
  | some ch =>
    have leads := same ch rfl
    cases found : catalog.firstResponse? ch with
    | none =>
      rw [found, Option.map_none, eq_comm, Option.map_eq_none_iff] at leads
      rw [poleZeroAt_of_noResponse codec settings converter request found,
        poleZeroAt_of_noResponse codec' settings' converter request leads]
    | some r =>
      rw [found, Option.map_some, eq_comm, Option.map_eq_some_iff] at leads
      obtain ⟨r', found', lead⟩ := leads
      rw [poleZeroAt_of_response codec settings converter request found,
        poleZeroAt_of_response codec' settings' converter request found',
        InstrumentResponse.poleZero_eq_poleZeroOf, InstrumentResponse.poleZero_eq_poleZeroOf, lead]

end Chain

variable {catalog : Catalog} (codec : Codec) (settings : Assembly.Settings)
  (converter : Converter) {network station : String}

/-- Nothing further is asked about a station that is not known. -/
theorem poleZero_of_unknown (unknown : ¬ catalog.Knows ⟨network, station⟩) :
    poleZero ⟨catalog.service, codec, settings, converter⟩ network station =
      ⟨[.ask (.stations (some network))],
        .error (.directory (Query.poleZero network station).request .noData)⟩ := by
  have missing : (catalog.stationsOf (some network)).find?
      (fun s => decide (s.id.station = station)) = none := by
    rw [catalog.find?_stationsOf, List.find?_eq_none]
    intro s stored same
    exact unknown ⟨s, stored, of_decide_eq_true same⟩
  have answered : catalog.service.stations (some network) =
    .ok (catalog.stationsOf (some network)) := rfl
  rw [poleZero, answered, Outcome.bind_of_ok rfl, missing]
  rfl

/-- Of the entries of a known station only the codes matter, which they have in common. -/
theorem poleZero_of_known (known : catalog.Knows ⟨network, station⟩) :
    let client : Client := ⟨catalog.service, codec, settings, converter⟩
    let rest := client.poleZeroAt (Query.poleZero network station).request
      (catalog.firstChannel? ⟨network, station⟩)
    client.poleZero network station =
      ⟨.ask (.stations (some network)) :: .ask (.channelsOf ⟨network, station⟩) :: rest.events,
        rest.result⟩ := by
  intro client rest
  obtain ⟨found, first, same⟩ := catalog.exists_find?_stationsOf known
  have stations : client.service.stations (some network) =
    .ok (catalog.stationsOf (some network)) := rfl
  have channels : client.service.channelsOf ⟨network, station⟩ =
    .ok (catalog.channelsOf ⟨network, station⟩) := rfl
  rw [poleZero, stations, Outcome.bind_of_ok rfl, first]
  simp only [same]
  rw [channels, Outcome.bind_of_ok rfl]
  have first_rest : rest = client.poleZeroAt (Query.poleZero network station).request
      (catalog.channelsOf ⟨network, station⟩).head? := by rw [catalog.head?_channelsOf]
  rw [first_rest]
  cases catalog.channelsOf ⟨network, station⟩ <;> rfl

/-- Where the chain breaks off before a response there are no data, and nothing is converted. -/
theorem poleZero_noData (missing : ¬ catalog.Knows ⟨network, station⟩ ∨
      (catalog.firstChannel? ⟨network, station⟩).bind catalog.firstResponse? = none) :
    let o := poleZero ⟨catalog.service, codec, settings, converter⟩ network station
    o.result = .error (.directory (Query.poleZero network station).request .noData) ∧
      Event.conversions o.events = [] := by
  by_cases known : catalog.Knows ⟨network, station⟩
  · have nothing := missing.resolve_left (not_not_intro known)
    rw [poleZero_of_known codec settings converter known]
    exact poleZeroAt_noData codec settings converter _ nothing
  · rw [poleZero_of_unknown codec settings converter known]
    exact ⟨rfl, rfl⟩

/-- Where it leads to a response, this is what is converted. -/
theorem converts_of_known (known : catalog.Knows ⟨network, station⟩) {r : ResponseEpoch}
    (found : (catalog.firstChannel? ⟨network, station⟩).bind catalog.firstResponse? = some r) :
    r.response.Converts converter
      (poleZero ⟨catalog.service, codec, settings, converter⟩ network station) := by
  rw [poleZero_of_known codec settings converter known]
  exact (converts_poleZeroAt codec settings converter _ found).congr rfl rfl

/-- What catalogs hold beside the links of the chain does not matter. -/
theorem poleZero_of_agreesOn {other : Catalog} (codec' : Codec) (settings' : Assembly.Settings)
    (agrees : catalog.AgreesOn other ⟨network, station⟩) :
    poleZero ⟨other.service, codec', settings', converter⟩ network station =
      poleZero ⟨catalog.service, codec, settings, converter⟩ network station := by
  by_cases known : catalog.Knows ⟨network, station⟩
  · have known' : other.Knows ⟨network, station⟩ := agrees.known.1 known
    rw [poleZero_of_known codec settings converter known,
      poleZero_of_known codec' settings' converter known', ← agrees.channel,
      poleZeroAt_congr codec settings converter _ codec' settings' agrees.response]
  · have unknown' : ¬ other.Knows ⟨network, station⟩ := fun known' => known (agrees.known.2 known')
    rw [poleZero_of_unknown codec settings converter known,
      poleZero_of_unknown codec' settings' converter unknown']

variable (catalog network station)

/-- A pole/zero query follows one chain of first matches. There are no data if no entry has the
codes of the station, or it has no channel, or no response is found for the first channel when that
begins; otherwise the first stage and its first filter decide, of which a pole/zero filter reaches
the converter once with the normalization of its stage. Catalogs that agree on the links of this
chain are answered alike, whatever else they hold, and however records are decoded. The standard
converter does not fail: it drops the errors, and without a normalization the gain is 1. -/
theorem poleZero_firstMatches :
    let id : StationId := ⟨network, station⟩
    let lead := (catalog.firstChannel? id).bind catalog.firstResponse?
    let o := poleZero ⟨catalog.service, codec, settings, converter⟩ network station
    (¬ catalog.Knows id ∨ lead = none →
      o.result = .error (.directory (Query.poleZero network station).request .noData) ∧
        Event.conversions o.events = []) ∧
      (catalog.Knows id → ∀ r, lead = some r → r.response.Converts converter o) ∧
      (∀ (other : Catalog) (codec' : Codec) (settings' : Assembly.Settings),
        catalog.AgreesOn other id →
          poleZero ⟨other.service, codec', settings', converter⟩ network station = o) ∧
      (converter = .standard → catalog.Knows id → ∀ r, lead = some r →
        ∀ stage later data others, r.response.stages = stage :: later →
          stage.filters = .poleZero data :: others →
          ∃ p, o.result = .ok p ∧
            p.poles = data.poles.map (fun z => ⟨z.real, z.imaginary⟩) ∧
            p.zeros = data.zeros.map (fun z => ⟨z.real, z.imaginary⟩) ∧
            (stage.normalization = none → p.gain = 1.0 ∧ p.normalizationFrequency = none) ∧
            ∀ n, stage.normalization = some n →
              p.gain = n.factor ∧ p.normalizationFrequency = some n.frequency) := by
  intro id lead o
  refine ⟨poleZero_noData codec settings converter, ?_, ?_, ?_⟩
  · intro known r found
    exact converts_of_known codec settings converter known found
  · intro other codec' settings' agrees
    exact poleZero_of_agreesOn codec settings converter codec' settings' agrees
  · rintro rfl known r found stage later data others stages filters
    have converts := converts_of_known codec settings .standard known found
    rw [(converts.poleZero stage later data others stages filters).1]
    exact Converter.exists_convert_standard data stage.normalization

def vertical : Channel :=
  ⟨⟨"CZ", "KHC", "  ", "BHZ"⟩, ⟨(Instant.ofUnix? 1325376000 0).get rfl, none⟩⟩

def twoZeros : PoleZeroData := ⟨[], [⟨0.0, 0.0, 0.1, 0.1⟩, ⟨-2.5, 0.0, 0.1, 0.1⟩]⟩

/-- The first stage of a seismometer, with further filters. -/
def sensor (further : List Filter) : ResponseStage :=
  ⟨some ⟨3948.58, 0.02⟩, .poleZero twoZeros :: further⟩

/-- A response of the vertical channel that is in effect from 2011-01-01 on. -/
def earlyResponse : ResponseEpoch :=
  ⟨vertical.id, ⟨(Instant.ofUnix? 1293840000 0).get rfl, none⟩, ⟨[sensor []]⟩⟩

/-- A response that has ended when the vertical channel begins. -/
def endedResponse : ResponseEpoch :=
  ⟨vertical.id, ⟨(Instant.ofUnix? 1262304000 0).get rfl,
    some ((Instant.ofUnix? 1293840000 0).get rfl)⟩, ⟨[]⟩⟩

/-- A response that begins with the vertical channel and has more stages and filters. -/
def longResponse : ResponseEpoch :=
  ⟨vertical.id, vertical.epoch, ⟨[sensor [.list ⟨[], [], []⟩], ⟨none, [.coefficient ⟨[], []⟩]⟩]⟩⟩

def bareCatalog : Catalog :=
  ⟨[⟨⟨"CZ", "KHC"⟩, ⟨49.13, 13.58, 700, "METER", .geographic⟩, vertical.epoch⟩], [vertical], [],
    [earlyResponse]⟩

/-- A second catalog, with other entries in front of the links and behind them. -/
def fullCatalog : Catalog :=
  ⟨[⟨⟨"CZ", "PVCC"⟩, ⟨50.53, 14.57, 311, "METER", .geographic⟩, vertical.epoch⟩,
      ⟨⟨"CZ", "KHC"⟩, ⟨0.0, 0.0, 0.0, "FOOT", .geocentric⟩, endedResponse.epoch⟩],
    [⟨⟨"CZ", "PVCC", "  ", "HHZ"⟩, vertical.epoch⟩, vertical,
      ⟨⟨"CZ", "KHC", "  ", "BHN"⟩, endedResponse.epoch⟩],
    [⟨vertical.id, vertical.epoch.start, 0, ⟨1.0, .second, 0, 1.0, 0⟩, []⟩],
    [endedResponse, longResponse, earlyResponse]⟩

theorem poleZero_firstMatches_twoCatalogs :
    let settings : Assembly.Settings := ⟨.little, .failFast, .sequential⟩
    let query (c : Catalog) :=
      poleZero ⟨c.service, .native .little, settings, .standard⟩ "CZ" "KHC"
    bareCatalog.AgreesOn fullCatalog ⟨"CZ", "KHC"⟩ ∧ query fullCatalog = query bareCatalog ∧
      Event.conversions (query bareCatalog).events = [(twoZeros, some ⟨3948.58, 0.02⟩)] ∧
      ∃ p, (query bareCatalog).result = .ok p ∧ p.gain = 3948.58 := by
  intro settings query
  have bareChannel : bareCatalog.firstChannel? ⟨"CZ", "KHC"⟩ = some vertical := by decide
  have fullChannel : fullCatalog.firstChannel? ⟨"CZ", "KHC"⟩ = some vertical := by decide
  have bareResponse : bareCatalog.firstResponse? vertical = some earlyResponse :=
    List.find?_cons_of_pos (by decide)
  have fullResponse : fullCatalog.firstResponse? vertical = some longResponse := by
    rw [Catalog.firstResponse?, fullCatalog, List.find?_cons_of_neg (by decide),
      List.find?_cons_of_pos (by decide)]
  have known : bareCatalog.Knows ⟨"CZ", "KHC"⟩ := ⟨_, .head _, rfl⟩
  have agrees : bareCatalog.AgreesOn fullCatalog ⟨"CZ", "KHC"⟩ := by
    refine ⟨iff_of_true known ⟨_, .tail _ (.head _), rfl⟩, bareChannel.trans fullChannel.symm, ?_⟩
    intro ch first
    obtain rfl := Option.some.inj (bareChannel.symm.trans first)
    rw [bareResponse, fullResponse]
    rfl
  have lead : (bareCatalog.firstChannel? ⟨"CZ", "KHC"⟩).bind bareCatalog.firstResponse? =
      some earlyResponse := by
    rw [bareChannel]
    exact bareResponse
  obtain ⟨-, converts, alike, standard⟩ :=
    poleZero_firstMatches bareCatalog (.native .little) settings .standard "CZ" "KHC"
  have converted := (converts known earlyResponse lead).poleZero (sensor []) [] twoZeros [] rfl rfl
  obtain ⟨p, answered, -, -, -, normalized⟩ :=
    standard rfl known earlyResponse lead (sensor []) [] twoZeros [] rfl rfl
  exact ⟨agrees, alike fullCatalog (.native .little) settings agrees, converted.2, p, answered,
    (normalized _ rfl).1⟩

end Client
end Seismogram
