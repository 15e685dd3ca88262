import Seismogram.Directory.Catalog
import Seismogram.Proofs.Assembly.Emitting
import Seismogram.Query

/-!
# Consulting the directory

Every query of a client begins with questions to the directory service, each of which may need the
answers to those before it. A fault of the service is the last that happens: it is returned as it
is, with the text of the query's request, and neither a further question nor any work on data
follows. Where the service answers but nothing is selected, the fault is that there are no data.
-/

namespace Seismogram

open Time Directory

namespace Directory

def Question.method : Question → Method
  | .networkCodes => .networkCodes
  | .stations _ => .stations
  | .channelsByCode _ => .channelsByCode
  | .channelsOf _ => .channelsOf
  | .records _ => .records
  | .response _ _ => .response

/-- A question and those that its answer leads to. -/
def Question.leadingTo {α : Type} (question : Question) (answer : Except Fault α)
    (further : α → List Question) : List Question :=
  question :: match answer with
    | .ok a => further a
    | .error _ => []

/-- Methods are called in an order if those after the first question are. -/
theorem Question.methods_leadingTo {α : Type} {question : Question} {answer : Except Fault α}
    {further : α → List Question} {later : List Method}
    (ordered : ∀ a, (further a).map Question.method <+: later) :
    (question.leadingTo answer further).map Question.method <+: question.method :: later := by
  cases answer with
  | error fault => exact List.cons_prefix_cons.2 ⟨rfl, List.nil_prefix⟩
  | ok a => exact List.cons_prefix_cons.2 ⟨rfl, ordered a⟩

/-- The fault in an answer, if it is one. -/
def faultIn {α : Type} : Except Fault α → Option Fault
  | .error fault => some fault
  | .ok _ => none

/-- The fault that a service has instead of an answer to a question. -/
def Service.fault? (s : Service) : Question → Option Fault
  | .networkCodes => faultIn s.networkCodes
  | .stations network => faultIn (s.stations network)
  | .channelsByCode id => faultIn (s.channelsByCode id)
  | .channelsOf station => faultIn (s.channelsOf station)
  | .records windows => faultIn (s.records windows)
  | .response channel time => faultIn (s.response channel time)

end Directory

/-- Whether an event hands data to a codec or a converter. -/
def Event.IsWork : Event → Prop
  | .decode _ => True
  | .convert _ _ => True
  | _ => False

/-- That an operation asks these questions on behalf of a request, and ends at the first fault. -/
inductive Consults {α : Type} (service : Service) (request : String) :
    List Question → Outcome α → Prop where
  | rest {o : Outcome α} (silent : Event.questions o.events = []) : Consults service request [] o
  | fault {question : Question} {fault : Fault} (failed : service.fault? question = some fault) :
      Consults service request [question] ⟨[.ask question], .error (.directory request fault)⟩
  | answer {question : Question} {questions : List Question} {o : Outcome α}
      (answered : service.fault? question = none) (later : Consults service request questions o) :
      Consults service request (question :: questions) ⟨.ask question :: o.events, o.result⟩

namespace Consults

variable {α β : Type} {service : Service} {request : String} {questions : List Question}
  {o : Outcome α}

theorem questions_eq (h : Consults service request questions o) :
    Event.questions o.events = questions := by
  induction h with
  | rest silent => exact silent
  | fault failed => rfl
  | answer answered later ih => exact congrArg (_ :: ·) ih

/-- A question that ends in a fault is the last one; the fault is the result, and no data are worked
on before it. -/
theorem of_fault (h : Consults service request questions o) {question : Question} {fault : Fault}
    (asked : question ∈ questions) (failed : service.fault? question = some fault) :
    questions.getLast? = some question ∧ o.result = .error (.directory request fault) ∧
      ∀ event ∈ o.events, ¬ event.IsWork := by
  induction h with
  | rest silent => cases asked
  | fault failed' =>
    obtain rfl := List.mem_singleton.1 asked
    obtain rfl := Option.some.inj (failed'.symm.trans failed)
    refine ⟨rfl, rfl, ?_⟩
    intro event member
    rw [List.mem_singleton.1 member]
    exact id
  | answer answered later ih =>
    rcases List.mem_cons.1 asked with rfl | asked
    · rw [answered] at failed
      cases failed
    · obtain ⟨last, result, idle⟩ := ih asked
      refine ⟨?_, result, ?_⟩
      · rw [List.getLast?_cons, last]
        rfl
      · intro event member
        rcases List.mem_cons.1 member with rfl | member
        · exact id
        · exact idle event member

/-- A question comes first, and what follows it depends on the answer. -/
theorem ask {question : Question} {answer : Except Fault β} {next : β → Outcome α}
    {further : β → List Question} (agrees : service.fault? question = faultIn answer)
    (goesOn : ∀ b, Consults service request (further b) (next b)) :
    Consults service request (question.leadingTo answer further)
      (Client.ask request question answer >>= next) := by
  cases answer with
  | error fault => exact .fault agrees
  | ok b => exact .answer agrees (goesOn b)

theorem askLast {question : Question} {answer : Except Fault β} {next : β → Outcome α}
    (agrees : service.fault? question = faultIn answer)
    (silent : ∀ b, Event.questions (next b).events = []) :
    Consults service request [question] (Client.ask request question answer >>= next) := by
  cases answer with
  | error fault => exact .fault agrees
  | ok b => exact .answer agrees (.rest (silent b))

end Consults

/-! ### The queries -/

inductive Query where
  | networkIds
  | stationIds (network : Option String)
  | coordinates (network station : String) (time : Instant)
  | poleZero (network station : String)
  | waveform (network station location channel : String) (start stop : Instant)

namespace Query

def Answer : Query → Type
  | networkIds => List String
  | stationIds _ => List String
  | coordinates .. => Extraction Location
  | poleZero .. => PoleZeroResponse
  | waveform .. => Assembly.Report

def request : Query → String
  | networkIds => "network ids"
  | stationIds network => "station ids " ++ network.getD "*"
  | coordinates network station time => s!"coordinates {network}.{station} at {Stamp.write time}"
  | poleZero network station => s!"paz {network}.{station}"
  | waveform network station location channel start stop =>
    Client.waveformRequest ⟨network, station, Client.siteOf location, channel⟩ start stop

def methods : Query → List Method
  | networkIds => [.networkCodes]
  | stationIds _ => [.stations]
  | coordinates .. => [.stations]
  | poleZero .. => [.stations, .channelsOf, .response]
  | waveform .. => [.channelsByCode, .records]

theorem nodup_methods (q : Query) : q.methods.Nodup := by
  cases q <;> simp [methods]

end Query

namespace Client

variable (c : Client)

def answer : (q : Query) → Outcome q.Answer
  | .networkIds => c.networkIds
  | .stationIds network => c.stationIds network
  | .coordinates network station time => c.coordinates network station time
  | .poleZero network station => c.poleZero network station
  | .waveform network station location channel start stop =>
    c.waveform network station location channel start stop

/-- The questions of a query, as far as the answers of the service lead. -/
def plan : Query → List Question
  | .networkIds => [.networkCodes]
  | .stationIds network => [.stations network]
  | .coordinates network _ _ => [.stations (some network)]
  | .poleZero network station =>
    Question.leadingTo (.stations (some network)) (c.service.stations (some network))
      fun stations => match stations.find? fun s => decide (s.id.station = station) with
        | none => []
        | some found =>
          Question.leadingTo (.channelsOf found.id) (c.service.channelsOf found.id)
            fun
              | [] => []
              | first :: _ => [.response first.id first.epoch.start]
  | .waveform network station location channel start stop =>
    let id : ChannelId := ⟨network, station, siteOf location, channel⟩
    Question.leadingTo (.channelsByCode id) (c.service.channelsByCode id) fun channels =>
      if channels.isEmpty then []
      else [.records (channels.map fun found => ⟨found.id, start, stop⟩)]

/-- That the service answers a query but nothing is selected. -/
def Misses : Query → Prop
  | .networkIds => False
  | .stationIds _ => False
  | .coordinates network station time =>
    ∃ stations, c.service.stations (some network) = .ok stations ∧
      ∀ s ∈ stations, s.id.station = station → s.epoch.contains time = false
  | .poleZero network station =>
    ∃ stations, c.service.stations (some network) = .ok stations ∧
      ((∀ s ∈ stations, s.id.station ≠ station) ∨
        ∃ found, stations.find? (fun s => decide (s.id.station = station)) = some found ∧
          c.service.channelsOf found.id = .ok [])
  | .waveform network station location channel _ _ =>
    c.service.channelsByCode ⟨network, station, siteOf location, channel⟩ = .ok []

variable {c}

theorem questions_assemble (records : List Record) :
    Event.questions (c.assembler.assemble records).events = [] :=
  (c.assembler.emits_assembleUnder [] records).questions_eq_nil fun _ => id

theorem questions_coordinates (l : Location) : Event.questions l.coordinates.events = [] := by
  rw [Location.coordinates]
  split
  · simp [Event.questions]
  · rfl

theorem questions_poleZero (r : InstrumentResponse) (converter : Converter) :
    Event.questions (r.poleZero converter).events = [] := by
  rw [InstrumentResponse.poleZero]
  split
  · rfl
  · split <;> rfl

/-- Every query consults the service by its plan. -/
theorem consults_answer (c : Client) (q : Query) :
    Consults c.service q.request (c.plan q) (c.answer q) := by
  cases q with
  | networkIds =>
    have alone : c.networkIds = c.networkIds >>= pure := (bind_pure _).symm
    rw [answer, alone]
    exact .askLast rfl fun codes => rfl
  | stationIds network => exact .askLast rfl fun stations => rfl
  | coordinates network station time =>
    refine .askLast rfl ?_
    intro stations
    split
    · rfl
    · exact questions_coordinates _
    · rfl
  | poleZero network station =>
    refine .ask rfl ?_
    intro stations
    cases stations.find? fun s => decide (s.id.station = station) with
    | none => exact .rest rfl
    | some found =>
      refine .ask rfl ?_
      intro channels
      cases channels with
      | nil => exact .rest rfl
      | cons first others =>
        refine .askLast rfl ?_
        intro response
        exact questions_poleZero response c.converter
  | waveform network station location channel start stop =>
    refine .ask rfl ?_
    intro channels
    cases channels with
    | nil => exact .rest rfl
    | cons first others =>
      refine .askLast rfl ?_
      intro records
      exact questions_assemble records

theorem methods_plan (c : Client) (q : Query) :
    (c.plan q).map Question.method <+: q.methods := by
  cases q with
  | networkIds => exact List.prefix_rfl
  | stationIds network => exact List.prefix_rfl
  | coordinates network station time => exact List.prefix_rfl
  | poleZero network station =>
    apply Question.methods_leadingTo
    intro stations
    split
    · exact List.nil_prefix
    · apply Question.methods_leadingTo
      intro channels
      split
      · exact List.nil_prefix
      · exact List.prefix_rfl
  | waveform network station location channel start stop =>
    apply Question.methods_leadingTo
    intro channels
    split
    · exact List.nil_prefix
    · exact List.prefix_rfl

/-- A query that selects nothing finds no data. -/
theorem answer_of_misses {q : Query} (nothing : c.Misses q) :
    (c.answer q).result = .error (.directory q.request .noData) := by
  cases q with
  | networkIds => exact nothing.elim
  | stationIds network => exact nothing.elim
  | coordinates network station time =>
    obtain ⟨stations, answered, outside⟩ := nothing
    have selected : stations.filter (fun s =>
        decide (s.id.station = station) && s.epoch.contains time) = [] := by
      rw [List.filter_eq_nil_iff]
      intro s member
      simpa using outside s member
    rw [answer, coordinates, answered, Outcome.bind_of_ok rfl, selected]
    rfl
  | poleZero network station =>
    obtain ⟨stations, answered, unknown | ⟨found, first, channels⟩⟩ := nothing
    · have selected : stations.find? (fun s => decide (s.id.station = station)) = none := by
        rw [List.find?_eq_none]
        intro s member
        simpa using unknown s member
      rw [answer, poleZero, answered, Outcome.bind_of_ok rfl, selected]
      rfl
    · rw [answer, poleZero, answered, Outcome.bind_of_ok rfl, first]
      dsimp only
      rw [channels, Outcome.bind_of_ok rfl]
      rfl
  | waveform network station location channel start stop =>
    have answered : c.service.channelsByCode ⟨network, station, siteOf location, channel⟩ =
      .ok [] := nothing
    rw [answer, waveform, answered, Outcome.bind_of_ok rfl]
    rfl

/-- Where the service knows the channel and hands over records, these are assembled. -/
theorem waveform_of_records {network station location channel : String} {start stop : Instant}
    {channels : List Channel} {records : List Record}
    (known : c.service.channelsByCode ⟨network, station, siteOf location, channel⟩ = .ok channels)
    (some : channels ≠ [])
    (handed : c.service.records (channels.map fun found => ⟨found.id, start, stop⟩) = .ok records) :
    (c.waveform network station location channel start stop).result =
        (c.assembler.assemble records).result ∧
      Event.calls (c.waveform network station location channel start stop).events =
        Event.calls (c.assembler.assemble records).events := by
  rw [waveform, known, Outcome.bind_of_ok rfl]
  obtain ⟨first, others, rfl⟩ := List.exists_cons_of_ne_nil some
  rw [List.isEmpty_cons, if_neg Bool.false_ne_true]
  dsimp only
  rw [handed, Outcome.bind_of_ok rfl]
  exact ⟨rfl, rfl⟩

/-- Every query consults the directory service first, whatever the service, the codec and the
converter do. The methods are called in a fixed order, none of them twice, with the questions that
the answers so far lead to. A fault of the service is the last that happens: the query returns it
unchanged with the text of its request, and neither codec nor converter is reached. Where nothing
is selected the query fails with that request and the fault that there are no data; the listings of
networks and stations succeed with an empty list instead. A waveform query whose questions are
answered gives what assembling the handed records gives. -/
theorem answer_directoryFirst (c : Client) :
    (∀ q, let o := c.answer q
      let asked := Event.questions o.events
      asked = c.plan q ∧ asked.map Question.method <+: q.methods ∧
        (asked.map Question.method).Nodup ∧
        (∀ question ∈ asked, ∀ fault, c.service.fault? question = some fault →
          asked.getLast? = some question ∧ o.result = .error (.directory q.request fault) ∧
            ∀ event ∈ o.events, ¬ event.IsWork) ∧
        (c.Misses q → o.result = .error (.directory q.request .noData))) ∧
      c.networkIds.result =
        c.service.networkCodes.mapError (.directory Query.networkIds.request) ∧
      (∀ network, (c.stationIds network).result =
        ((c.service.stations network).map fun stations =>
          stations.map fun s => s.id.station).mapError
            (.directory (Query.stationIds network).request)) ∧
      ∀ network station location channel start stop channels records,
        c.service.channelsByCode ⟨network, station, siteOf location, channel⟩ = .ok channels →
        channels ≠ [] →
        c.service.records (channels.map fun found => ⟨found.id, start, stop⟩) = .ok records →
        (c.waveform network station location channel start stop).result =
            (c.assembler.assemble records).result ∧
          Event.calls (c.waveform network station location channel start stop).events =
            Event.calls (c.assembler.assemble records).events := by
  refine ⟨?_, rfl, ?_, ?_⟩
  · intro q o asked
    have consults := c.consults_answer q
    have planned : asked = c.plan q := consults.questions_eq
    have ordered : asked.map Question.method <+: q.methods := planned ▸ c.methods_plan q
    refine ⟨planned, ordered, q.nodup_methods.sublist ordered.sublist, ?_, answer_of_misses⟩
    intro question member fault failed
    rw [planned] at member ⊢
    exact consults.of_fault member failed
  · intro network
    rw [stationIds, Outcome.result_bind]
    cases c.service.stations network <;> rfl
  · intro network station location channel start stop channels records known some handed
    exact waveform_of_records known some handed

/-- A client whose service knows the station GE.APE, but fails when asked for its channels. -/
def withoutChannels : Client :=
  let beginning : Instant := (Instant.ofUnix? 883612800 0).get rfl
  let station : Station :=
    ⟨⟨"GE", "APE"⟩, ⟨37.07, 25.53, 620, Location.expectedUnit, .geographic⟩, ⟨beginning, none⟩⟩
  let faults : Method → Option Fault
    | .channelsOf => some (.remote "timeout")
    | _ => none
  ⟨(Catalog.empty.addStation station).service.withFaults faults, .native .little,
    ⟨.little, .failFast, .sequential⟩, .standard⟩

theorem poleZero_withoutChannels :
    let o := withoutChannels.poleZero "GE" "APE"
    Event.questions o.events = [.stations (some "GE"), .channelsOf ⟨"GE", "APE"⟩] ∧
      o.result = .error (.directory "paz GE.APE" (.remote "timeout")) ∧
      ∀ event ∈ o.events, ¬ event.IsWork := by
  intro o
  obtain ⟨queries, -⟩ := answer_directoryFirst withoutChannels
  obtain ⟨planned, -, -, stops, -⟩ := queries (.poleZero "GE" "APE")
  have asked : Event.questions o.events = [.stations (some "GE"), .channelsOf ⟨"GE", "APE"⟩] :=
    planned.trans rfl
  have refused : .channelsOf ⟨"GE", "APE"⟩ ∈ Event.questions o.events := by simp [asked]
  obtain ⟨-, result, idle⟩ := stops _ refused _ rfl
  exact ⟨asked, result, idle⟩

end Client
end Seismogram
