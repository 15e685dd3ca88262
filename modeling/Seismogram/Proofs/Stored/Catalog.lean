import Seismogram.Proofs.Json.Standard
import Seismogram.Stored.Station

/-!
# Catalogs come back from their text

A catalog is storable with a library if its integers have the widths of their members, 32 bits with
a sign for codes and exponents and 64 bits for counts, and if the library gives back its instants
and its doubles, which have to be finite. The form of each entry keeps what is storable, so a
storable catalog is read back from its text as it was, whatever its strings are and however many
entries it has.
-/

namespace Seismogram

open Json Json.Form Time

/-! ### What can be stored -/

/-- An integer of 32 bits with a sign. -/
structure FitsInt32 (n : Int) : Prop where
  atLeast : Int32.minValue.toInt ≤ n
  atMost : n ≤ Int32.maxValue.toInt

variable (lib : Library)

structure Time.Epoch.Storable (e : Epoch) : Prop where
  start : lib.KeepsInstant e.start
  stop : ∀ t ∈ e.stop, lib.KeepsInstant t

structure SamplingInterval.Storable (i : SamplingInterval) : Prop where
  value : lib.KeepsDouble i.value
  power : FitsInt32 i.power
  multiplier : lib.KeepsDouble i.multiplier
  exponent : FitsInt32 i.exponent

structure Chunk.Storable (c : Chunk) : Prop where
  compression : FitsInt32 c.compression
  samples : c.samples < UInt64.size

structure Record.Storable (r : Record) : Prop where
  start : lib.KeepsInstant r.start
  samples : r.samples < UInt64.size
  interval : r.interval.Storable lib
  chunks : ∀ c ∈ r.chunks, c.Storable

structure Location.Storable (l : Location) : Prop where
  latitude : lib.KeepsDouble l.latitude
  longitude : lib.KeepsDouble l.longitude
  elevation : lib.KeepsDouble l.elevation

structure Station.Storable (s : Station) : Prop where
  location : s.location.Storable lib
  epoch : s.epoch.Storable lib

structure MeasuredComplex.Storable (z : MeasuredComplex) : Prop where
  real : lib.KeepsDouble z.real
  imaginary : lib.KeepsDouble z.imaginary
  realError : lib.KeepsDouble z.realError
  imaginaryError : lib.KeepsDouble z.imaginaryError

def Filter.Storable : Filter → Prop
  | .poleZero d => (∀ z ∈ d.poles, z.Storable lib) ∧ ∀ z ∈ d.zeros, z.Storable lib
  | .coefficient d =>
    (∀ x ∈ d.numerator, lib.KeepsDouble x) ∧ ∀ x ∈ d.denominator, lib.KeepsDouble x
  | .list d =>
    (∀ x ∈ d.frequency, lib.KeepsDouble x) ∧ (∀ x ∈ d.amplitude, lib.KeepsDouble x) ∧
      ∀ x ∈ d.phase, lib.KeepsDouble x

structure Normalization.Storable (n : Normalization) : Prop where
  factor : lib.KeepsDouble n.factor
  frequency : lib.KeepsDouble n.frequency

structure ResponseStage.Storable (s : ResponseStage) : Prop where
  normalization : ∀ n ∈ s.normalization, n.Storable lib
  filters : ∀ f ∈ s.filters, f.Storable lib

structure ResponseEpoch.Storable (r : ResponseEpoch) : Prop where
  epoch : r.epoch.Storable lib
  stages : ∀ s ∈ r.response.stages, s.Storable lib

structure Directory.Catalog.Storable (c : Directory.Catalog) : Prop where
  stations : ∀ s ∈ c.stations, s.Storable lib
  channels : ∀ ch ∈ c.channels, ch.epoch.Storable lib
  records : ∀ r ∈ c.records, r.Storable lib
  responses : ∀ r ∈ c.responses, r.Storable lib

variable {lib}

theorem FitsInt32.keeps {n : Int} (fits : FitsInt32 n) : int32.Keeps lib n := by
  have atLeast := fits.atLeast
  have atMost := fits.atMost
  have low : Int64.minValue.toInt ≤ Int32.minValue.toInt := by decide
  have high : Int32.maxValue.toInt < UInt64.size := by decide
  exact keeps_int atLeast atMost (by omega) (by omega)

namespace Stored

/-! ### Times and codes -/

theorem keeps_instant {t : Instant} (kept : lib.KeepsInstant t) : (instant lib).Keeps lib t :=
  (keeps_string _).mapOption kept

theorem keeps_byteOrder (order : ByteOrder) : byteOrder.Keeps lib order := by
  cases order <;> exact keeps_choice (by simp) (by simp)

theorem keeps_baseUnit (unit : BaseUnit) : baseUnit.Keeps lib unit := by
  apply keeps_choice unit.mem_all
  cases unit <;> simp [BaseUnit.all, BaseUnit.name]

theorem keeps_locationKind (kind : LocationKind) : locationKind.Keeps lib kind := by
  apply keeps_choice kind.mem_all
  cases kind <;> simp [LocationKind.all, LocationKind.name]

theorem keeps_filterKind (kind : FilterKind) : filterKind.Keeps lib kind := by
  apply keeps_choice kind.mem_all
  cases kind <;> simp [FilterKind.all, FilterKind.key]

theorem keeps_byte (b : UInt8) : byte.Keeps lib b :=
  (keeps_nat b.toNat_lt (by decide)).map (UInt8.ofNat_toNat ..)

theorem keeps_epoch {e : Epoch} (storable : e.Storable lib) : (epoch lib).Keeps lib e := by
  have start := keeps_instant storable.start
  have stop : (Form.optional (instant lib)).Keeps lib e.stop :=
    .optional (fun t present => keeps_instant (storable.stop t present)) (fun t _ => nofun)
  exact keeps_structured rfl (by simp) (by simp [start.writes, stop.writes]) fun room => by
    simp [start.read_write, stop.read_write]

theorem keeps_channelId (id : ChannelId) : channelId.Keeps lib id :=
  keeps_structured rfl (by simp) (by simp) fun room => by simp

theorem keeps_stationId (id : StationId) : stationId.Keeps lib id :=
  keeps_structured rfl (by simp) (by simp) fun room => by simp

/-! ### Records -/

theorem keeps_interval {i : SamplingInterval} (storable : i.Storable lib) :
    (interval lib).Keeps lib i := by
  have value := keeps_double storable.value
  have unit : baseUnit.Keeps lib i.unit := keeps_baseUnit i.unit
  have power : int32.Keeps lib i.power := storable.power.keeps
  have multiplier := keeps_double storable.multiplier
  have exponent : int32.Keeps lib i.exponent := storable.exponent.keeps
  refine keeps_structured rfl (by simp) ?_ fun room => ?_
  · simp [value.writes, unit.writes, power.writes, multiplier.writes, exponent.writes]
  · simp [value.read_write, unit.read_write, power.read_write, multiplier.read_write,
      exponent.read_write]

theorem keeps_chunk {c : Chunk} (storable : c.Storable) : chunk.Keeps lib c := by
  have compression : int32.Keeps lib c.compression := storable.compression.keeps
  have order : byteOrder.Keeps lib c.byteOrder := keeps_byteOrder c.byteOrder
  have samples : count.Keeps lib c.samples := keeps_count storable.samples
  have values : (Form.list byte).Keeps lib c.values := .list fun b _ => keeps_byte b
  refine keeps_structured rfl (by simp) ?_ fun room => ?_
  · simp [compression.writes, order.writes, samples.writes, values.writes]
  · simp [compression.read_write, order.read_write, samples.read_write, values.read_write]

theorem keeps_record {r : Record} (storable : r.Storable lib) : (record lib).Keeps lib r := by
  have channel : channelId.Keeps lib r.channel := keeps_channelId r.channel
  have start := keeps_instant storable.start
  have samples : count.Keeps lib r.samples := keeps_count storable.samples
  have interval := keeps_interval storable.interval
  have chunks : (Form.list chunk).Keeps lib r.chunks :=
    .list fun c listed => keeps_chunk (storable.chunks c listed)
  refine keeps_structured rfl (by simp) ?_ fun room => ?_
  · simp [channel.writes, start.writes, samples.writes, interval.writes, chunks.writes]
  · simp [channel.read_write, start.read_write, samples.read_write, interval.read_write,
      chunks.read_write]

/-! ### Responses -/

theorem keeps_doubles {xs : List Float} (kept : ∀ x ∈ xs, lib.KeepsDouble x) :
    (Form.list (double lib)).Keeps lib xs :=
  .list fun x listed => keeps_double (kept x listed)

theorem keeps_measuredComplex {z : MeasuredComplex} (storable : z.Storable lib) :
    (measuredComplex lib).Keeps lib z := by
  have real := keeps_double storable.real
  have imaginary := keeps_double storable.imaginary
  have realError := keeps_double storable.realError
  have imaginaryError := keeps_double storable.imaginaryError
  refine keeps_structured rfl (by simp) ?_ fun room => ?_
  · simp [real.writes, imaginary.writes, realError.writes, imaginaryError.writes]
  · simp [real.read_write, imaginary.read_write, realError.read_write, imaginaryError.read_write]

theorem keeps_poleZeroData {d : PoleZeroData} (storable : (Filter.poleZero d).Storable lib) :
    (poleZeroData lib).Keeps lib d := by
  have poles : (Form.list (measuredComplex lib)).Keeps lib d.poles :=
    .list fun z listed => keeps_measuredComplex (storable.1 z listed)
  have zeros : (Form.list (measuredComplex lib)).Keeps lib d.zeros :=
    .list fun z listed => keeps_measuredComplex (storable.2 z listed)
  exact keeps_structured rfl (by simp) (by simp [poles.writes, zeros.writes]) fun room => by
    simp [poles.read_write, zeros.read_write]

theorem keeps_coefficientData {d : CoefficientData}
    (storable : (Filter.coefficient d).Storable lib) : (coefficientData lib).Keeps lib d := by
  have numerator := keeps_doubles storable.1
  have denominator := keeps_doubles storable.2
  refine keeps_structured rfl (by simp) ?_ fun room => ?_
  · simp [numerator.writes, denominator.writes]
  · simp [numerator.read_write, denominator.read_write]

theorem keeps_listData {d : ListData} (storable : (Filter.list d).Storable lib) :
    (listData lib).Keeps lib d := by
  have frequency := keeps_doubles storable.1
  have amplitude := keeps_doubles storable.2.1
  have phase := keeps_doubles storable.2.2
  refine keeps_structured rfl (by simp) ?_ fun room => ?_
  · simp [frequency.writes, amplitude.writes, phase.writes]
  · simp [frequency.read_write, amplitude.read_write, phase.read_write]

theorem writes_filterData {f : Filter} (storable : f.Storable lib) :
    lib.Writes (writeFilterData lib f) := by
  cases f with
  | poleZero d => exact (keeps_poleZeroData storable).writes
  | coefficient d => exact (keeps_coefficientData storable).writes
  | list d => exact (keeps_listData storable).writes

theorem readFilterData_write {f : Filter} (storable : f.Storable lib) (room : Nat) :
    readFilterData lib room (writeFilterData lib f) f.kind = some f := by
  cases f with
  | poleZero d =>
    exact congrArg (Option.map Filter.poleZero) ((keeps_poleZeroData storable).read_write room)
  | coefficient d =>
    exact congrArg (Option.map Filter.coefficient)
      ((keeps_coefficientData storable).read_write room)
  | list d => exact congrArg (Option.map Filter.list) ((keeps_listData storable).read_write room)

/-- The kind of a filter is written before its data, which are then read as what they are. -/
theorem keeps_filter {f : Filter} (storable : f.Storable lib) : (filter lib).Keeps lib f := by
  have kind : filterKind.Keeps lib f.kind := keeps_filterKind f.kind
  refine ⟨.object (by simp [kind.writes, writes_filterData storable]), fun room => ?_⟩
  have members : Members.ofValue? ["kind", "value"] room ((filter lib).write f) =
      some ⟨room - 1, [("kind", filterKind.write f.kind), ("value", writeFilterData lib f)]⟩ :=
    Members.ofValue?_ofMembers (by simp) (by simp)
  have fit : filterDataFit lib ⟨room - 1, [("kind", filterKind.write f.kind),
      ("value", writeFilterData lib f)]⟩ = true := rfl
  show (Members.ofValue? ["kind", "value"] room ((filter lib).write f)).bind
    (fun ms => if filterDataFit lib ms then readFilterMembers lib filterKind ms else none) = some f
  rw [members, Option.bind_some, if_pos fit, readFilterMembers]
  simp [kind.read_write, Members.get?, List.lookup_cons, readFilterData_write storable]

theorem keeps_normalization {n : Normalization} (storable : n.Storable lib) :
    (normalization lib).Keeps lib n := by
  have factor := keeps_double storable.factor
  have frequency := keeps_double storable.frequency
  exact keeps_structured rfl (by simp) (by simp [factor.writes, frequency.writes]) fun room => by
    simp [factor.read_write, frequency.read_write]

theorem keeps_responseStage {s : ResponseStage} (storable : s.Storable lib) :
    (responseStage lib).Keeps lib s := by
  have normalization : (Form.optional (normalization lib)).Keeps lib s.normalization :=
    .optional (fun n present => keeps_normalization (storable.normalization n present))
      (fun n _ => nofun)
  have filters : (Form.list (filter lib)).Keeps lib s.filters :=
    .list fun f listed => keeps_filter (storable.filters f listed)
  refine keeps_structured rfl (by simp) ?_ fun room => ?_
  · simp [normalization.writes, filters.writes]
  · simp [normalization.read_write, filters.read_write]

theorem keeps_instrumentResponse {r : InstrumentResponse}
    (storable : ∀ s ∈ r.stages, s.Storable lib) : (instrumentResponse lib).Keeps lib r := by
  have stages : (Form.list (responseStage lib)).Keeps lib r.stages :=
    .list fun s listed => keeps_responseStage (storable s listed)
  exact keeps_structured rfl (by simp) (by simp [stages.writes]) fun room => by
    simp [stages.read_write]

/-! ### Entries of a catalog -/

theorem keeps_location {l : Location} (storable : l.Storable lib) :
    (location lib).Keeps lib l := by
  have latitude := keeps_double storable.latitude
  have longitude := keeps_double storable.longitude
  have elevation := keeps_double storable.elevation
  have kind : locationKind.Keeps lib l.kind := keeps_locationKind l.kind
  refine keeps_structured rfl (by simp) ?_ fun room => ?_
  · simp [latitude.writes, longitude.writes, elevation.writes, kind.writes]
  · simp [latitude.read_write, longitude.read_write, elevation.read_write, kind.read_write]

theorem keeps_station {s : Station} (storable : s.Storable lib) : (station lib).Keeps lib s := by
  have id : stationId.Keeps lib s.id := keeps_stationId s.id
  have location := keeps_location storable.location
  have epoch := keeps_epoch storable.epoch
  refine keeps_structured rfl (by simp) ?_ fun room => ?_
  · simp [id.writes, location.writes, epoch.writes]
  · simp [id.read_write, location.read_write, epoch.read_write]

theorem keeps_channel {c : Channel} (storable : c.epoch.Storable lib) :
    (channel lib).Keeps lib c := by
  have id : channelId.Keeps lib c.id := keeps_channelId c.id
  have epoch := keeps_epoch storable
  exact keeps_structured rfl (by simp) (by simp [id.writes, epoch.writes]) fun room => by
    simp [id.read_write, epoch.read_write]

theorem keeps_responseEpoch {r : ResponseEpoch} (storable : r.Storable lib) :
    (responseEpoch lib).Keeps lib r := by
  have channel : channelId.Keeps lib r.channel := keeps_channelId r.channel
  have epoch := keeps_epoch storable.epoch
  have response := keeps_instrumentResponse storable.stages
  refine keeps_structured rfl (by simp) ?_ fun room => ?_
  · simp [channel.writes, epoch.writes, response.writes]
  · simp [channel.read_write, epoch.read_write, response.read_write]

theorem keeps_catalog {c : Directory.Catalog} (storable : c.Storable lib) :
    (catalog lib).Keeps lib c := by
  have stations : (Form.list (station lib)).Keeps lib c.stations :=
    .list fun s listed => keeps_station (storable.stations s listed)
  have channels : (Form.list (channel lib)).Keeps lib c.channels :=
    .list fun ch listed => keeps_channel (storable.channels ch listed)
  have records : (Form.list (record lib)).Keeps lib c.records :=
    .list fun r listed => keeps_record (storable.records r listed)
  have responses : (Form.list (responseEpoch lib)).Keeps lib c.responses :=
    .list fun r listed => keeps_responseEpoch (storable.responses r listed)
  refine keeps_structured rfl (by simp) ?_ fun room => ?_
  · simp [stations.writes, channels.writes, records.writes, responses.writes]
  · simp [stations.read_write, channels.read_write, records.read_write, responses.read_write]

/-- A storable catalog is read back from its text as it was, if the library reads the texts it
writes. -/
theorem catalog_replays {c : Directory.Catalog} (back : lib.ReadsBack)
    (storable : c.Storable lib) :
    (catalog lib).ofText lib ((catalog lib).toText lib c) = .ok c :=
  (keeps_catalog storable).ofText_toText back

/-- A capture with a time inside a leap second, the last day of all, open and closed epochs, the
least and the greatest positive double, and filters of every kind in stages with and without a
normalization. -/
def capture : Directory.Catalog :=
  let leapSecond : Instant := (Instant.ofParts? 17166 86399 1500000000).get rfl
  let lastDay : Instant := (Instant.ofParts? lastDay 0 1).get rfl
  let id : ChannelId := ⟨"GE", "APE", "  ", "SHZ"⟩
  let normalized : ResponseStage :=
    ⟨some ⟨-0.0, .ofBits 0x7FEFFFFFFFFFFFFF⟩, [.poleZero ⟨[⟨-0.037, 0.037, 0.0, 0.0⟩], []⟩]⟩
  let plain : ResponseStage :=
    ⟨none, [.coefficient ⟨[1.0], [.ofBits 1]⟩, .list ⟨[0.1], [], [2.5]⟩]⟩
  ⟨[⟨⟨"GE", "APE"⟩, ⟨36.3689, -25.5306, 620.0, "M\"ETER\n", .geographic⟩, ⟨leapSecond, none⟩⟩],
    [⟨id, ⟨leapSecond, some lastDay⟩⟩],
    [⟨id, leapSecond, 4, ⟨0.08, .second, 0, 1.0, 1⟩, [⟨10, .big, 4, [0, 128, 255]⟩]⟩],
    [⟨id, ⟨leapSecond, none⟩, ⟨[normalized, plain]⟩⟩]⟩

theorem storable_capture : capture.Storable .standard := by
  have short (n : Nat) (small : n < 2 ^ 31) : FitsInt32 n := by
    have least : Int32.minValue.toInt = -2 ^ 31 := rfl
    have greatest : Int32.maxValue.toInt = 2 ^ 31 - 1 := rfl
    constructor <;> omega
  have double {x : Float} (finite : x.isFinite = true) : Library.standard.KeepsDouble x :=
    Library.keepsDouble_standard finite
  have single {x : Float} (finite : x.isFinite = true) :
      ∀ y ∈ [x], Library.standard.KeepsDouble y :=
    List.forall_mem_singleton.2 (double finite)
  have leapSecond : Library.standard.KeepsInstant
      ((Instant.ofParts? 17166 86399 1500000000).get rfl) :=
    Library.keepsInstant_standard (by decide)
  have lastDay : Library.standard.KeepsInstant ((Instant.ofParts? lastDay 0 1).get rfl) :=
    Library.keepsInstant_standard (by decide)
  have endless : ∀ t ∈ (none : Option Instant), Library.standard.KeepsInstant t := by
    rintro _ ⟨⟩
  refine ⟨List.forall_mem_singleton.2 ?_, List.forall_mem_singleton.2 ?_,
    List.forall_mem_singleton.2 ?_, List.forall_mem_singleton.2 ⟨⟨leapSecond, endless⟩, ?_⟩⟩
  · exact ⟨⟨double rfl, double rfl, double rfl⟩, leapSecond, endless⟩
  · refine ⟨leapSecond, ?_⟩
    rintro _ ⟨⟩
    exact lastDay
  · have four : 4 < UInt64.size := by decide
    exact ⟨leapSecond, four, ⟨double rfl, short 0 (by omega), double rfl, short 1 (by omega)⟩,
      List.forall_mem_singleton.2 ⟨short 10 (by omega), four⟩⟩
  refine List.forall_mem_cons.2 ⟨⟨?_, List.forall_mem_singleton.2 ?_⟩,
    List.forall_mem_singleton.2 ⟨nofun, List.forall_mem_cons.2 ⟨?_, ?_⟩⟩⟩
  · rintro _ ⟨⟩
    exact ⟨double rfl, double rfl⟩
  · exact ⟨List.forall_mem_singleton.2 ⟨double rfl, double rfl, double rfl, double rfl⟩,
      List.forall_mem_nil _⟩
  · exact ⟨single rfl, single rfl⟩
  · exact List.forall_mem_singleton.2 ⟨single rfl, List.forall_mem_nil _, single rfl⟩

theorem catalog_replays_capture :
    Library.standard.ReadsBack ∧ capture.Storable .standard ∧
      (catalog .standard).ofText .standard ((catalog .standard).toText .standard capture) =
        .ok capture :=
  ⟨Library.readsBack_standard, storable_capture,
    catalog_replays Library.readsBack_standard storable_capture⟩

end Stored
end Seismogram
