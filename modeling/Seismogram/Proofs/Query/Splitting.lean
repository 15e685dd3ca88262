import Mathlib.Data.List.Perm.Basic
import Seismogram.Proofs.Assembly.Collecting
import Seismogram.Proofs.Query.Waveform

/-!
# Splitting a window of time

A window of time is split at an instant into one that ends there and one that begins there. A
record of the window begins in one of the two and not in the other, even if it begins on the split
itself. Assembling treats every record on its own, so what a query yields for the window is parted
into what it yields for both.
-/

namespace Seismogram

open Time Directory Assembly

/-- A list is parted into two: both are subsequences of it, and together they have its members,
each as often as it has. -/
structure Parted {α : Type} (whole first second : List α) : Prop where
  perm : whole.Perm (first ++ second)
  first_sublist : first.Sublist whole
  second_sublist : second.Sublist whole

namespace Parted

variable {α β : Type} {whole first second whole' first' second' : List α}

theorem nil : Parted ([] : List α) [] [] := ⟨.nil, .slnil, .slnil⟩

/-- The members that satisfy a condition part a list from those that do not. -/
theorem filter (p : α → Bool) (as : List α) :
    Parted as (as.filter p) (as.filter fun a => !p a) :=
  ⟨(List.filter_append_perm p as).symm, List.filter_sublist, List.filter_sublist⟩

theorem append (h : Parted whole first second) (h' : Parted whole' first' second') :
    Parted (whole ++ whole') (first ++ first') (second ++ second') where
  perm := by
    have swapped : (second ++ (first' ++ second')).Perm (first' ++ (second ++ second')) :=
      List.perm_append_comm_assoc ..
    have moved := swapped.append_left first
    rw [← List.append_assoc, ← List.append_assoc first] at moved
    exact (h.perm.append h'.perm).trans moved
  first_sublist := h.first_sublist.append h'.first_sublist
  second_sublist := h.second_sublist.append h'.second_sublist

theorem flatten_replicate (h : Parted whole first second) (n : Nat) :
    Parted (List.replicate n whole).flatten (List.replicate n first).flatten
      (List.replicate n second).flatten := by
  induction n with
  | zero => exact nil
  | succ n ih => exact h.append ih

theorem filterMap (h : Parted whole first second) (f : α → Option β) :
    Parted (whole.filterMap f) (first.filterMap f) (second.filterMap f) where
  perm := by
    rw [← List.filterMap_append]
    exact h.perm.filterMap f
  first_sublist := h.first_sublist.filterMap f
  second_sublist := h.second_sublist.filterMap f

theorem countP_eq (h : Parted whole first second) (p : α → Bool) :
    whole.countP p = first.countP p + second.countP p := by
  rw [h.perm.countP_eq, List.countP_append]

theorem eq_nil_iff (h : Parted whole first second) : whole = [] ↔ first = [] ∧ second = [] := by
  rw [← List.append_eq_nil_iff, ← List.perm_nil, ← List.perm_nil]
  exact h.perm.congr_left []

end Parted

/-! ### Reports -/

namespace Assembly

def Attempt.reason? (r : Record) : Attempt → Option (String × Failure)
  | .error failure => some (r.channel.text, failure)
  | .ok _ => none

namespace Report

/-- The failures of a report with their channels, without their positions in the batch. -/
def reasons (r : Report) : List (String × Failure) :=
  r.failures.map fun f => (f.channel, f.failure)

/-- A report is parted into two: its traces and its failures are, and the skipped records add up. -/
structure PartedInto (whole first second : Report) : Prop where
  traces : Parted whole.traces first.traces second.traces
  reasons : Parted whole.reasons first.reasons second.reasons
  skipped : whole.skipped = first.skipped + second.skipped

theorem reasons_eq_nil_iff {r : Report} : r.reasons = [] ↔ r.failures = [] := List.map_eq_nil_iff

theorem reasons_behind (n : Nat) (r : Report) : (r.behind n).reasons = r.reasons :=
  List.map_map

theorem reasons_followedBy (front : Report) (n : Nat) (back : Report) :
    (front.followedBy n back).reasons = front.reasons ++ back.reasons := by
  rw [← reasons_behind n back]
  exact List.map_append

theorem reasons_ofRecords (codec : Codec) (host : ByteOrder) (records : List Record) :
    (ofRecords codec host records).reasons =
      records.filterMap fun r => Attempt.reason? r (r.assemble codec host).result := by
  induction records with
  | nil => rfl
  | cons r rest ih =>
    rw [ofRecords_cons, reasons_followedBy, ih, List.filterMap_cons]
    obtain failure | _ | trace := (r.assemble codec host).result <;> rfl

/-- Parts of a batch have the parts of its report. -/
theorem partedInto_ofRecords {whole first second : List Record} (codec : Codec)
    (host : ByteOrder) (h : Parted whole first second) :
    (ofRecords codec host whole).PartedInto (ofRecords codec host first)
      (ofRecords codec host second) where
  traces := by
    simp only [traces_ofRecords]
    exact h.filterMap _
  reasons := by
    simp only [reasons_ofRecords]
    exact h.filterMap _
  skipped := by
    simp only [skipped_ofRecords]
    exact h.countP_eq _

theorem exists_orFirstFailure_eq_ok_iff {r : Report} :
    (∃ s, r.orFirstFailure = .ok s) ↔ r.reasons = [] := by
  simp [orFirstFailure_eq_ok_iff, reasons_eq_nil_iff]

end Report
end Assembly

/-! ### Windows -/

namespace Directory.Catalog

variable (catalog : Catalog) (id : ChannelId)

/-- What is selected from a window is what is stored of another window, if the same instants are. -/
theorem filter_stored {p : Record → Bool} {start stop start' stop' : Instant}
    (same : ∀ r : Record, (p r = true ∧ start ≤ r.start ∧ r.start < stop) ↔
      start' ≤ r.start ∧ r.start < stop') :
    (catalog.stored id start stop).filter p = catalog.stored id start' stop' := by
  rw [stored, List.filter_filter]
  refine List.filter_congr ?_
  intro r _
  rw [Bool.eq_iff_iff, Bool.and_eq_true, decide_eq_true_iff, decide_eq_true_iff]
  exact and_left_comm.trans (and_congr_right fun _ => same r)

/-- The records of a window are parted by a split of the window into those that begin before it and
those that begin on it or later. -/
theorem parted_stored {a b c : Instant} (ab : a ≤ b) (bc : b ≤ c) :
    Parted (catalog.stored id a c) (catalog.stored id a b) (catalog.stored id b c) := by
  rw [Instant.le_iff] at ab bc
  have before : (catalog.stored id a c).filter (fun r => decide (r.start < b)) =
      catalog.stored id a b := by
    refine catalog.filter_stored id fun r => ?_
    simp only [decide_eq_true_eq, Instant.lt_iff, Instant.le_iff]
    omega
  have after : (catalog.stored id a c).filter (fun r => !decide (r.start < b)) =
      catalog.stored id b c := by
    refine catalog.filter_stored id fun r => ?_
    simp only [Bool.not_eq_true', decide_eq_false_iff_not, Instant.lt_iff, Instant.le_iff]
    omega
  rw [← before, ← after]
  exact .filter _ _

/-- The records of a window that are handed over to be assembled: each once for every entry of the
channel. -/
def handed (start stop : Instant) : List Record :=
  (List.replicate (catalog.channelsByCode id).length (catalog.stored id start stop)).flatten

theorem parted_handed {a b c : Instant} (ab : a ≤ b) (bc : b ≤ c) :
    Parted (catalog.handed id a c) (catalog.handed id a b) (catalog.handed id b c) :=
  (catalog.parted_stored id ab bc).flatten_replicate _

end Directory.Catalog

namespace Client

section Windows

variable (catalog : Catalog) (codec : Codec) (settings : Settings) (converter : Converter)
  (network station location channel : String) (start stop : Instant)

/-- A waveform query on a catalog finds no data where there is no entry of the channel, and
otherwise reports on the records that are handed over, or fails with the first of their failures. -/
theorem result_waveform_catalog :
    let id : ChannelId := ⟨network, station, siteOf location, channel⟩
    let report : Report := .ofRecords codec settings.host (catalog.handed id start stop)
    (waveform ⟨catalog.service, codec, settings, converter⟩ network station location channel
        start stop).result =
      if catalog.channelsByCode id = [] then
        .error (.directory (waveformRequest id start stop) .noData)
      else
        match settings.policy with
        | .failFast => report.orFirstFailure
        | .collectErrors => .ok report := by
  intro id report
  have fetched := result_fetch_catalog catalog codec settings converter network station location
    channel start stop
  simp only [List.length_eq_zero_iff] at fetched
  rw [waveform_eq_fetch, Outcome.result_bind, fetched]
  by_cases unknown : catalog.channelsByCode id = []
  · rw [if_pos unknown, if_pos unknown]
    rfl
  · rw [if_neg unknown, if_neg unknown]
    exact Assembler.result_assembleUnder_eq ..

/-- Nothing but an unknown channel makes a waveform query on a catalog find no data. -/
theorem exists_result_waveform_eq_noData_iff :
    (∃ request, (waveform ⟨catalog.service, codec, settings, converter⟩ network station location
        channel start stop).result = .error (.directory request .noData)) ↔
      catalog.channelsByCode ⟨network, station, siteOf location, channel⟩ = [] := by
  rw [result_waveform_catalog]
  constructor
  · rintro ⟨request, failed⟩
    by_contra known
    rw [if_neg known] at failed
    cases policy : settings.policy with
    | failFast =>
      rw [policy] at failed
      obtain ⟨f, -, ⟨⟩⟩ := Report.orFirstFailure_eq_error_iff.1 failed
    | collectErrors =>
      rw [policy] at failed
      cases failed
  · intro unknown
    exact ⟨_, if_pos unknown⟩

end Windows

/-- A window of time may be split anywhere, also at one of its ends, without losing or repeating
anything. Whether a channel is unknown to a catalog has nothing to do with the window. Where errors
are collected, the report on the records of a known channel is parted into the reports on those
before the split and those from it on. Where a failure ends the batch, the query for the window
succeeds exactly if the queries for both parts do. -/
theorem waveform_split (catalog : Catalog) (codec : Codec) (settings : Settings)
    (converter : Converter) (network station location channel : String) {a b c : Instant}
    (ab : a ≤ b) (bc : b ≤ c) :
    let id : ChannelId := ⟨network, station, siteOf location, channel⟩
    let query (policy : Policy) (start stop : Instant) : Except Failure Report :=
      (waveform ⟨catalog.service, codec, { settings with policy }, converter⟩ network station
        location channel start stop).result
    let unknown (policy : Policy) (start stop : Instant) : Prop :=
      ∃ request, query policy start stop = .error (.directory request .noData)
    (∀ policy start stop, unknown policy start stop ↔ catalog.channelsByCode id = []) ∧
      (unknown .collectErrors a c ∨
        ∃ whole first second, query .collectErrors a c = .ok whole ∧
          query .collectErrors a b = .ok first ∧ query .collectErrors b c = .ok second ∧
          whole.PartedInto first second) ∧
      ((∃ whole, query .failFast a c = .ok whole) ↔
        (∃ first, query .failFast a b = .ok first) ∧
          ∃ second, query .failFast b c = .ok second) := by
  intro id query unknown
  have missing (policy : Policy) (start stop : Instant) :
      unknown policy start stop ↔ catalog.channelsByCode id = [] :=
    exists_result_waveform_eq_noData_iff ..
  refine ⟨missing, ?_⟩
  by_cases entries : catalog.channelsByCode id = []
  · have failed (start stop : Instant) : ¬ ∃ report, query .failFast start stop = .ok report := by
      rintro ⟨report, succeeded⟩
      obtain ⟨request, failed⟩ := (missing .failFast start stop).2 entries
      cases failed.symm.trans succeeded
    refine ⟨.inl ((missing _ a c).2 entries), ?_⟩
    exact iff_of_false (failed a c) fun both => failed a b both.1
  · let report (start stop : Instant) : Report :=
      .ofRecords codec settings.host (catalog.handed id start stop)
    have parted : (report a c).PartedInto (report a b) (report b c) :=
      Report.partedInto_ofRecords codec settings.host (catalog.parted_handed id ab bc)
    have collected (start stop : Instant) :
        query .collectErrors start stop = .ok (report start stop) :=
      (result_waveform_catalog ..).trans (if_neg entries)
    have settled (start stop : Instant) :
        query .failFast start stop = (report start stop).orFirstFailure :=
      (result_waveform_catalog ..).trans (if_neg entries)
    refine ⟨.inr ⟨_, _, _, collected a c, collected a b, collected b c, parted⟩, ?_⟩
    simp only [settled, Report.exists_orFirstFailure_eq_ok_iff]
    exact parted.reasons.eq_nil_iff

/-- One record of a channel with two entries begins exactly on the split: it is reported for the
second part only, as often as for the window. -/
theorem waveform_split_twoEpochs :
    let query (start stop : Instant) : Except Failure Report :=
      (waveform ⟨twoEpochs.service, .native .little, ⟨.little, .collectErrors, .sequential⟩,
        .standard⟩ "GE" "APE" "" "SHZ" start stop).result
    let a := midnight 12222 (by decide) (by decide)
    let b := midnight 12223 (by decide) (by decide)
    let c := midnight 12224 (by decide) (by decide)
    recording.start = b ∧ query a b = .ok Report.empty ∧
      ∃ whole second, query a c = .ok whole ∧ query b c = .ok second ∧
        whole.traces.Perm second.traces ∧ whole.reasons.Perm second.reasons ∧
        whole.traces.map (·.data) = [[1, 2, 3, 4], [1, 2, 3, 4]] ∧
        second.traces.map (·.data) = [[1, 2, 3, 4], [1, 2, 3, 4]] := by
  intro query a b c
  obtain ⟨missing, unknown | ⟨whole, first, second, ac, ab, bc, parted⟩, -⟩ :=
    waveform_split twoEpochs (.native .little) ⟨.little, .collectErrors, .sequential⟩ .standard
      "GE" "APE" "" "SHZ" (a := a) (b := b) (c := c) (by decide) (by decide)
  · cases (missing _ _ _).1 unknown
  · have known : twoEpochs.channelsByCode recorder ≠ [] := by decide
    have answered (start stop : Instant) : query start stop =
        .ok (.ofRecords (.native .little) .little (twoEpochs.handed recorder start stop)) :=
      (result_waveform_catalog ..).trans (if_neg known)
    have nothing : twoEpochs.handed recorder a b = [] :=
      List.eq_nil_of_length_eq_zero (by decide)
    have empty : query a b = .ok Report.empty := by
      rw [answered, nothing]
      rfl
    obtain rfl : first = Report.empty := Except.ok.inj (ab.symm.trans empty)
    have inWhole : whole.traces.map (·.data) = [[1, 2, 3, 4], [1, 2, 3, 4]] := by
      rw [Except.ok.inj (ac.symm.trans (answered a c))]
      decide +kernel
    have inSecond : second.traces.map (·.data) = [[1, 2, 3, 4], [1, 2, 3, 4]] := by
      rw [Except.ok.inj (bc.symm.trans (answered b c))]
      decide +kernel
    exact ⟨rfl, ab, whole, second, ac, bc, parted.traces.perm, parted.reasons.perm, inWhole,
      inSecond⟩

end Client
end Seismogram
