import Mathlib.Data.List.Induction
import Mathlib.Data.List.Perm.Basic
import Seismogram.Directory.Catalog
import Seismogram.Query

/-!
# Listing networks and stations

The networks of a catalog are collected on the way through its stations, each where it appears for
the first time. As every station is of one network, the listings by network part the listing of all
stations: put one after another they have its items, each as often as it has.
-/

namespace Seismogram

open Time Directory

namespace Directory.Catalog

/-- Codes are found in the order in which they first appear. The induction takes codes away at the
end, so that those found before are settled: a code behind them moves no first appearance. -/
theorem pairwise_idxOf_distinct (codes : List String) :
    (distinct [] codes).Pairwise fun a b => codes.idxOf a < codes.idxOf b := by
  induction codes using List.reverseRecOn with
  | nil => exact .nil
  | append_singleton codes code ih =>
    have appeared {a : String} (found : a ∈ distinct [] codes) : a ∈ codes := by
      simpa [mem_distinct] using found
    have unmoved {a : String} (found : a ∈ distinct [] codes) :
        (codes ++ [code]).idxOf a = codes.idxOf a := by
      rw [List.idxOf_append, if_pos (appeared found)]
    have settled : (distinct [] codes).Pairwise fun a b =>
        (codes ++ [code]).idxOf a < (codes ++ [code]).idxOf b := by
      refine ih.imp_of_mem ?_
      intro a b foundA foundB earlier
      rwa [unmoved foundA, unmoved foundB]
    rw [distinct_append_singleton]
    by_cases known : code ∈ distinct [] codes
    · rwa [if_pos known, List.append_nil]
    · rw [if_neg known, List.pairwise_append]
      refine ⟨settled, List.pairwise_singleton _ _, ?_⟩
      intro a found b last
      obtain rfl := List.mem_singleton.1 last
      have new : b ∉ codes := by simpa [mem_distinct] using known
      rw [unmoved found, List.idxOf_append, if_neg new]
      exact Nat.lt_add_left _ (List.idxOf_lt_length_of_mem (appeared found))

theorem nodup_distinct (codes : List String) : (distinct [] codes).Nodup := by
  refine (pairwise_idxOf_distinct codes).imp ?_
  rintro a _ earlier rfl
  exact Nat.lt_irrefl _ earlier

end Directory.Catalog

/-- A list gathered key by key is the list of the members with these keys, in another order. -/
theorem flatMap_filter_perm {α κ : Type} [DecidableEq κ] (key : α → κ) (as : List α)
    {keys : List κ} (once : keys.Nodup) :
    (keys.flatMap fun k => as.filter fun a => decide (key a = k)).Perm
      (as.filter fun a => decide (key a ∈ keys)) := by
  induction keys with
  | nil => simp
  | cons k rest ih =>
    obtain ⟨new, once⟩ := List.nodup_cons.1 once
    have own : (as.filter fun a => decide (key a ∈ k :: rest)).filter
        (fun a => decide (key a = k)) = as.filter fun a => decide (key a = k) := by
      rw [List.filter_filter]
      refine List.filter_congr ?_
      intro a _
      rw [Bool.eq_iff_iff]
      simp only [Bool.and_eq_true, decide_eq_true_eq, List.mem_cons]
      exact and_iff_left_of_imp .inl
    have others : (as.filter fun a => decide (key a ∈ k :: rest)).filter
        (fun a => !decide (key a = k)) = as.filter fun a => decide (key a ∈ rest) := by
      rw [List.filter_filter]
      refine List.filter_congr ?_
      intro a _
      rw [Bool.eq_iff_iff]
      simp only [Bool.and_eq_true, Bool.not_eq_true', decide_eq_false_iff_not, decide_eq_true_eq,
        List.mem_cons]
      constructor
      · rintro ⟨other, same | listed⟩
        · exact absurd same other
        · exact listed
      · intro listed
        exact ⟨fun same => new (same ▸ listed), .inr listed⟩
    rw [List.flatMap_cons]
    refine ((ih once).append_left _).trans ?_
    rw [← own, ← others]
    exact List.filter_append_perm _ _

namespace Client

/-- The listings of a catalog never fail. The codes of the networks are those of the stored
stations, each listed once, in the order in which they first appear. The listing of a network has an
item for each of its entries in stored order, that of all networks an item for each entry. Gathered
network by network, the entries and with them the items are those of the listing of all, in another
order. -/
theorem listings_partition (catalog : Catalog) (codec : Codec) (settings : Assembly.Settings)
    (converter : Converter) :
    let client : Client := ⟨catalog.service, codec, settings, converter⟩
    let networks := catalog.stations.map fun s => s.id.network
    let members (network : String) :=
      catalog.stations.filter fun s => decide (s.id.network = network)
    let items (stations : List Station) := stations.map fun s => s.id.station
    ∃ codes, client.networkIds.result = .ok codes ∧
      codes.Nodup ∧ (∀ code, code ∈ codes ↔ code ∈ networks) ∧
      (codes.Pairwise fun first later => networks.idxOf first < networks.idxOf later) ∧
      (∀ network, (client.stationIds (some network)).result = .ok (items (members network))) ∧
      (client.stationIds none).result = .ok (items catalog.stations) ∧
      (codes.flatMap members).Perm catalog.stations ∧
      (codes.flatMap fun network => items (members network)).Perm (items catalog.stations) := by
  intro client networks members items
  have found {code : String} : code ∈ catalog.networkCodes ↔ code ∈ networks := by
    simp [Catalog.networkCodes, Catalog.mem_distinct, networks]
  have once : catalog.networkCodes.Nodup := Catalog.nodup_distinct networks
  have known : catalog.stations.filter
      (fun s => decide (s.id.network ∈ catalog.networkCodes)) = catalog.stations := by
    rw [List.filter_eq_self]
    intro s stored
    exact decide_eq_true (found.2 (List.mem_map_of_mem stored))
  have gathered : (catalog.networkCodes.flatMap members).Perm catalog.stations := by
    have groups := flatMap_filter_perm (fun s : Station => s.id.network) catalog.stations once
    rwa [known] at groups
  refine ⟨catalog.networkCodes, rfl, once, fun code => found,
    Catalog.pairwise_idxOf_distinct networks, fun network => rfl, ?_, gathered, ?_⟩
  · have every : catalog.stationsOf none = catalog.stations := List.filter_true _
    rw [← every]
    rfl
  · rw [← List.map_flatMap]
    exact gathered.map _

end Client
end Seismogram
