import Seismogram.Proofs.Query.Consultation
import Seismogram.Proofs.Time.Epochs

/-!
# Selecting a station

A coordinate query looks for the entries of a station whose epoch has the instant asked for strictly
inside. What it answers depends on how many there are, and on the entry if there is just one: where
entries stand in the catalog, and which others there are, does not matter.
-/

namespace Seismogram

open Time Directory

namespace Location

/-- A location has coordinates or is of the wrong kind; no directory fault comes from it. -/
theorem result_coordinates_ne_directory (l : Location) (request : String) (fault : Fault) :
    l.coordinates.result ≠ .error (.directory request fault) := by
  rw [coordinates]
  split <;> simp [Outcome.fail]

theorem lines_coordinates {l : Location} (geographic : l.kind = .geographic) :
    Event.lines l.coordinates.events = l.warnings.map fun w => ⟨.warn, w.message⟩ := by
  have events : l.coordinates.events =
      (l.warnings.map fun w => (⟨.warn, w.message⟩ : Log.Line)).map .line := by
    rw [coordinates, if_pos geographic, List.map_map]
    rfl
  rw [events, Event.lines_map_line]

end Location

namespace Directory.Catalog

/-- The entries of a station that have an instant strictly inside their epochs. -/
def stationsAt (c : Catalog) (id : StationId) (t : Instant) : List Station :=
  c.stations.filter fun s => decide (s.id = id ∧ s.epoch.Inside t)

/-- The selection from the stations of a network is one from all stations. -/
theorem filter_stationsOf (c : Catalog) (network station : String) (t : Instant) :
    (c.stationsOf (some network)).filter
        (fun s => decide (s.id.station = station) && s.epoch.contains t) =
      c.stationsAt ⟨network, station⟩ t := by
  rw [stationsOf, stationsAt, List.filter_filter]
  refine List.filter_congr ?_
  intro s _
  have inside : s.epoch.contains t = true ↔ s.epoch.Inside t := Epoch.contains_iff
  rw [Bool.eq_iff_iff]
  simp only [Option.all_some, Bool.and_eq_true, decide_eq_true_eq, StationId.eq_mk_iff, inside]
  exact and_comm.trans and_assoc.symm

/-- Entries that are not selected can be left out. -/
theorem stationsAt_filter (c : Catalog) (id : StationId) (t : Instant) (kept : Station → Bool)
    (keeps : ∀ s ∈ c.stations, s.id = id → s.epoch.Inside t → kept s = true) :
    stationsAt { c with stations := c.stations.filter kept } id t = c.stationsAt id t := by
  rw [stationsAt, stationsAt, List.filter_filter]
  refine List.filter_congr ?_
  intro s stored
  rw [Bool.eq_iff_iff]
  simp only [Bool.and_eq_true, decide_eq_true_eq]
  exact and_iff_left_of_imp fun selected => keeps s stored selected.1 selected.2

/-- The epochs of a station do not overlap exactly if no instant lies inside two of them. -/
theorem pairwise_apart_iff_stationsAt (c : Catalog) (id : StationId) :
    (c.stations.filter fun s => decide (s.id = id)).Pairwise
        (fun s other => ∀ t, s.epoch.Inside t → ¬ other.epoch.Inside t) ↔
      ∀ t, (c.stationsAt id t).length ≤ 1 := by
  have selected (t : Instant) : (c.stations.filter fun s => decide (s.id = id)).filter
      (fun s => decide (s.epoch.Inside t)) = c.stationsAt id t := by
    rw [stationsAt, List.filter_filter]
    refine List.filter_congr ?_
    intro s _
    rw [Bool.and_comm, ← Bool.decide_and]
  rw [pairwise_apart_iff fun (s : Station) t => s.epoch.Inside t]
  simp only [selected]

end Directory.Catalog

namespace Client

/-- What a coordinate query makes of the entries that it selects. -/
def choose (request : String) : List Station → Outcome (Extraction Location)
  | [] => noData request
  | [found] => found.location.coordinates
  | several => .fail (.directory request (.ambiguous several.length))

section Choose

variable {request : String} {selected : List Station}

theorem choose_of_two_le (several : 2 ≤ selected.length) :
    choose request selected = .fail (.directory request (.ambiguous selected.length)) := by
  obtain _ | ⟨first, _ | ⟨second, others⟩⟩ := selected
  · simp at several
  · simp at several
  · rfl

theorem result_choose_eq_noData_iff :
    (choose request selected).result = .error (.directory request .noData) ↔
      selected.length = 0 := by
  obtain _ | ⟨found, _ | ⟨second, others⟩⟩ := selected
  · simp [choose, noData, Outcome.fail]
  · simp [choose, found.location.result_coordinates_ne_directory]
  · simp [choose, Outcome.fail]

theorem result_choose_eq_ambiguous_iff {k : Nat} :
    (choose request selected).result = .error (.directory request (.ambiguous k)) ↔
      2 ≤ selected.length ∧ k = selected.length := by
  obtain _ | ⟨found, _ | ⟨second, others⟩⟩ := selected
  · simp [choose, noData, Outcome.fail]
  · simp [choose, found.location.result_coordinates_ne_directory]
  · simp [choose, Outcome.fail, eq_comm]

/-- The order of the entries does not matter: a single entry has no other order, and of several only
the number is told. -/
theorem choose_perm {other : List Station} (same : other.Perm selected) :
    choose request other = choose request selected := by
  by_cases several : 2 ≤ selected.length
  · have many : 2 ≤ other.length := by rwa [same.length_eq]
    rw [choose_of_two_le several, choose_of_two_le many, same.length_eq]
  · have equal := eq_of_perm_of_length_le_one same.symm (by omega)
    rw [equal]

end Choose

variable (catalog : Catalog) (codec : Codec) (settings : Assembly.Settings)
  (converter : Converter) (network station : String) (t : Instant)

/-- A coordinate query on a catalog puts one question and chooses from what it selects. -/
theorem coordinates_catalog :
    let chosen := choose (Query.coordinates network station t).request
      (catalog.stationsAt ⟨network, station⟩ t)
    coordinates ⟨catalog.service, codec, settings, converter⟩ network station t =
      ⟨.ask (.stations (some network)) :: chosen.events, chosen.result⟩ := by
  intro chosen
  have answered : catalog.service.stations (some network) =
    .ok (catalog.stationsOf (some network)) := rfl
  rw [coordinates, answered, Outcome.bind_of_ok rfl, catalog.filter_stationsOf]
  rfl

theorem result_coordinates_catalog :
    (coordinates ⟨catalog.service, codec, settings, converter⟩ network station t).result =
      (choose (Query.coordinates network station t).request
        (catalog.stationsAt ⟨network, station⟩ t)).result := by
  rw [coordinates_catalog]

theorem coordinates_of_single {s : Station}
    (single : catalog.stationsAt ⟨network, station⟩ t = [s]) :
    coordinates ⟨catalog.service, codec, settings, converter⟩ network station t =
      ⟨.ask (.stations (some network)) :: s.location.coordinates.events,
        s.location.coordinates.result⟩ := by
  rw [coordinates_catalog, single]
  rfl

theorem coordinates_of_perm {other : Catalog} (same : (other.stationsAt ⟨network, station⟩ t).Perm
      (catalog.stationsAt ⟨network, station⟩ t)) :
    coordinates ⟨other.service, codec, settings, converter⟩ network station t =
      coordinates ⟨catalog.service, codec, settings, converter⟩ network station t := by
  rw [coordinates_catalog, coordinates_catalog, choose_perm same]

/-- No instant is ambiguous exactly if the epochs of the station do not overlap. -/
theorem pairwise_apart_iff_ne_ambiguous :
    (catalog.stations.filter fun s => decide (s.id = ⟨network, station⟩)).Pairwise
        (fun s other => ∀ u, s.epoch.Inside u → ¬ other.epoch.Inside u) ↔
      ∀ u k, (coordinates ⟨catalog.service, codec, settings, converter⟩ network station u).result ≠
        .error (.directory (Query.coordinates network station u).request (.ambiguous k)) := by
  rw [Catalog.pairwise_apart_iff_stationsAt]
  constructor
  · intro rare u k
    rw [result_coordinates_catalog, ne_eq, result_choose_eq_ambiguous_iff]
    have few := rare u
    omega
  · intro clear u
    by_contra several
    have both : 2 ≤ (catalog.stationsAt ⟨network, station⟩ u).length := by omega
    refine clear u (catalog.stationsAt ⟨network, station⟩ u).length ?_
    rw [result_coordinates_catalog]
    exact result_choose_eq_ambiguous_iff.2 ⟨both, rfl⟩

/-- A coordinate query selects by count and never by position. It finds no data exactly if no entry
of the station has the instant strictly inside its epoch, and is ambiguous exactly if several have,
with their number. A single entry is answered with its location as it is stored, with a warning that
is also logged if its elevation is not in meters, or refused if it is not geographic. Only the
entries that match count, in any order: the station list can be permuted, and entries that do not
match left out or, the other way round, added. That no instant at all is ambiguous says that the
epochs of the station do not overlap. -/
theorem coordinates_byCount :
    let id : StationId := ⟨network, station⟩
    let request (u : Instant) := (Query.coordinates network station u).request
    let query (c : Catalog) (u : Instant) :=
      coordinates ⟨c.service, codec, settings, converter⟩ network station u
    let matching := catalog.stationsAt id t
    let o := query catalog t
    (o.result = .error (.directory (request t) .noData) ↔ matching.length = 0) ∧
      (∀ k, o.result = .error (.directory (request t) (.ambiguous k)) ↔
        2 ≤ matching.length ∧ k = matching.length) ∧
      (∀ s, matching = [s] →
        let warnings : List Warning :=
          if s.location.elevationUnit = "METER" then []
          else [.elevationUnit s.location.elevationUnit]
        (s.location.kind ≠ .geographic →
          o.result = .error (.locationKind s.location.kind) ∧ Event.lines o.events = []) ∧
        (s.location.kind = .geographic →
          o.result = .ok ⟨s.location, warnings⟩ ∧
            Event.lines o.events = warnings.map fun w => ⟨.warn, w.message⟩)) ∧
      (∀ other : Catalog, (other.stationsAt id t).Perm matching → query other t = o) ∧
      (∀ other : Catalog, other.stations.Perm catalog.stations → query other t = o) ∧
      (∀ kept : Station → Bool,
        (∀ s ∈ catalog.stations, s.id = id → s.epoch.Inside t → kept s = true) →
        query { catalog with stations := catalog.stations.filter kept } t = o) ∧
      ((catalog.stations.filter fun s => decide (s.id = id)).Pairwise
          (fun s other => ∀ u, s.epoch.Inside u → ¬ other.epoch.Inside u) ↔
        ∀ u k, (query catalog u).result ≠ .error (.directory (request u) (.ambiguous k))) := by
  intro id request query matching o
  have result : o.result = (choose (request t) matching).result :=
    result_coordinates_catalog catalog codec settings converter network station t
  have ordered (other : Catalog) (same : (other.stationsAt id t).Perm matching) :
      query other t = o :=
    coordinates_of_perm catalog codec settings converter network station t same
  refine ⟨?_, ?_, ?_, ordered, ?_, ?_, ?_⟩
  · rw [result]
    exact result_choose_eq_noData_iff
  · intro k
    rw [result]
    exact result_choose_eq_ambiguous_iff
  · intro s single warnings
    have outcome : o = _ :=
      coordinates_of_single catalog codec settings converter network station t single
    rw [outcome]
    refine ⟨?_, ?_⟩
    · intro other
      rw [Location.coordinates, if_neg other]
      exact ⟨rfl, rfl⟩
    · intro geographic
      refine ⟨?_, Location.lines_coordinates geographic⟩
      rw [Location.coordinates, if_pos geographic]
      rfl
  · intro other same
    exact ordered other (same.filter _)
  · intro kept keeps
    refine ordered _ ?_
    rw [Catalog.stationsAt_filter catalog id t kept keeps]
  · exact pairwise_apart_iff_ne_ambiguous catalog codec settings converter network station

def formerSite : Station :=
  ⟨⟨"GR", "GRA1"⟩, ⟨49.69, 11.22, 500, "METER", .geographic⟩,
    ⟨(Instant.ofUnix? 631152000 0).get rfl, some ((Instant.ofUnix? 946684800 0).get rfl)⟩⟩

def laterSite : Station :=
  ⟨⟨"GR", "GRA1"⟩, ⟨49.69, 11.22, 1640, "FOOT", .geographic⟩,
    ⟨(Instant.ofUnix? 946684800 0).get rfl, none⟩⟩

/-- When one site gives way to the other neither is selected, and a second later the one in feet. -/
theorem coordinates_byCount_twoSites :
    let catalog : Catalog := ⟨[formerSite, laterSite], [], [], []⟩
    let client : Client :=
      ⟨catalog.service, .native .little, ⟨.little, .failFast, .sequential⟩, .standard⟩
    let second : Instant := (Instant.ofUnix? 946684801 0).get rfl
    let warning : Warning := .elevationUnit "FOOT"
    (client.coordinates "GR" "GRA1" laterSite.epoch.start).result =
        .error (.directory (Query.coordinates "GR" "GRA1" laterSite.epoch.start).request .noData) ∧
      (client.coordinates "GR" "GRA1" second).result = .ok ⟨laterSite.location, [warning]⟩ ∧
      Event.lines (client.coordinates "GR" "GRA1" second).events =
        [⟨.warn, warning.message⟩] := by
  intro catalog client second warning
  obtain ⟨missed, -⟩ := coordinates_byCount catalog (.native .little)
    ⟨.little, .failFast, .sequential⟩ .standard "GR" "GRA1" laterSite.epoch.start
  obtain ⟨-, -, found, -⟩ := coordinates_byCount catalog (.native .little)
    ⟨.little, .failFast, .sequential⟩ .standard "GR" "GRA1" second
  have outside : (catalog.stationsAt ⟨"GR", "GRA1"⟩ laterSite.epoch.start).length = 0 := by decide
  have single : catalog.stationsAt ⟨"GR", "GRA1"⟩ second = [laterSite] := by
    rw [Catalog.stationsAt, List.filter_cons_of_neg (by decide),
      List.filter_cons_of_pos (by decide), List.filter_nil]
  obtain ⟨answered, logged⟩ := (found laterSite single).2 rfl
  exact ⟨missed.2 outside, answered, logged⟩

end Client
end Seismogram
