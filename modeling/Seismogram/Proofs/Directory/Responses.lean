import Seismogram.Directory.Catalog
import Seismogram.Proofs.Time.Epochs

/-!
# Responses in the course of time

A response is looked up by taking the first one that covers an instant. Where the epochs of a
channel's responses do not overlap, at most one of them is in effect at any instant, and the lookup
finds it wherever it stands in the list. Epochs that follow one another without a gap answer for the
whole time they span; an instant at which one ends and the next begins belongs to the next.
-/

namespace Seismogram.Directory.Catalog

open Time

def responsesOf (c : Catalog) (channel : ChannelId) : List ResponseEpoch :=
  c.responses.filter fun r => decide (r.channel = channel)

/-- The responses of a channel take turns: their epochs end after they have begun, and no two are in
effect at the same instant. -/
structure TakeTurns (c : Catalog) (channel : ChannelId) : Prop where
  proper : ∀ r ∈ c.responsesOf channel, r.epoch.Proper
  apart : (c.responsesOf channel).Pairwise fun r other =>
    ∀ t, r.epoch.InEffect t → ¬ other.epoch.InEffect t

def responsesAt (c : Catalog) (channel : ChannelId) (t : Instant) : List ResponseEpoch :=
  (c.responsesOf channel).filter fun r => decide (r.epoch.InEffect t)

theorem mem_responsesAt {c : Catalog} {channel : ChannelId} {t : Instant} {r : ResponseEpoch} :
    r ∈ c.responsesAt channel t ↔ r ∈ c.responsesOf channel ∧ r.epoch.InEffect t := by
  simp [responsesAt]

/-- Responses of other channels are passed over, and of its own channel those not in effect. -/
theorem response?_eq_head? {c : Catalog} {channel : ChannelId}
    (proper : ∀ r ∈ c.responsesOf channel, r.epoch.Proper) (t : Instant) :
    c.response? channel t = (c.responsesAt channel t).head?.map (·.response) := by
  rw [response?, ← List.head?_filter, responsesAt, responsesOf, List.filter_filter]
  congr 2
  refine List.filter_congr ?_
  intro r stored
  by_cases own : r.channel = channel
  · have listed : r ∈ c.responsesOf channel := by simp [responsesOf, stored, own]
    rw [decide_eq_true own, Bool.true_and, Bool.and_true, Bool.eq_iff_iff, decide_eq_true_iff]
    exact (proper r listed).covers_iff
  · rw [decide_eq_false own, Bool.false_and, Bool.and_false]

namespace TakeTurns

variable {c d : Catalog} {channel : ChannelId}

theorem length_responsesAt_le (turns : c.TakeTurns channel) (t : Instant) :
    (c.responsesAt channel t).length ≤ 1 :=
  (pairwise_apart_iff (fun (r : ResponseEpoch) t => r.epoch.InEffect t) _).1 turns.apart t

/-- The response in effect is found, wherever it is stored. -/
theorem service_response (turns : c.TakeTurns channel) {t : Instant} {r : ResponseEpoch}
    (listed : r ∈ c.responsesOf channel) (inEffect : r.epoch.InEffect t) :
    c.service.response channel t = .ok r.response := by
  have alone : c.responsesAt channel t = [r] := by
    have member : [r].Sublist (c.responsesAt channel t) :=
      List.singleton_sublist.2 (mem_responsesAt.2 ⟨listed, inEffect⟩)
    exact (member.eq_of_length_le (turns.length_responsesAt_le t)).symm
  have answer : c.response? channel t = some r.response := by
    rw [response?_eq_head? turns.proper, alone]
    rfl
  simp only [service, answer]

theorem service_noData (turns : c.TakeTurns channel) {t : Instant}
    (idle : ∀ r ∈ c.responsesOf channel, ¬ r.epoch.InEffect t) :
    c.service.response channel t = .error .noData := by
  have nothing : c.responsesAt channel t = [] := by
    rw [List.eq_nil_iff_forall_not_mem]
    intro r member
    exact idle r (mem_responsesAt.1 member).1 (mem_responsesAt.1 member).2
  have answer : c.response? channel t = none := by
    rw [response?_eq_head? turns.proper, nothing]
    rfl
  simp only [service, answer]

/-- A channel answers at an instant exactly if one of its responses is in effect. -/
theorem exists_service_response_iff (turns : c.TakeTurns channel) {t : Instant} :
    (∃ response, c.service.response channel t = .ok response) ↔
      ∃ r ∈ c.responsesOf channel, r.epoch.InEffect t := by
  constructor
  · rintro ⟨response, found⟩
    by_contra idle
    have nothing := turns.service_noData fun r listed inEffect => idle ⟨r, listed, inEffect⟩
    rw [nothing] at found
    cases found
  · rintro ⟨r, listed, inEffect⟩
    exact ⟨r.response, turns.service_response listed inEffect⟩

theorem of_perm (turns : c.TakeTurns channel) (same : d.responses.Perm c.responses) :
    d.TakeTurns channel := by
  have listed : (d.responsesOf channel).Perm (c.responsesOf channel) := same.filter _
  refine ⟨fun r member => turns.proper r (listed.mem_iff.1 member), ?_⟩
  refine (listed.pairwise_iff ?_).2 turns.apart
  intro r other apart t late early
  exact apart t early late

/-- The order in which responses are stored does not matter to those that take turns. -/
theorem service_response_of_perm (turns : c.TakeTurns channel)
    (same : d.responses.Perm c.responses) (t : Instant) :
    d.service.response channel t = c.service.response channel t := by
  have listed : (d.responsesAt channel t).Perm (c.responsesAt channel t) :=
    (same.filter _).filter _
  have equal : d.responsesAt channel t = c.responsesAt channel t :=
    eq_of_perm_of_length_le_one listed ((turns.of_perm same).length_responsesAt_le t)
  have found : d.response? channel t = c.response? channel t := by
    rw [response?_eq_head? (turns.of_perm same).proper, response?_eq_head? turns.proper, equal]
  simp only [service, found]

/-- Responses whose epochs are adjacent take turns. -/
theorem of_adjacent {rs : List ResponseEpoch} (listed : (c.responsesOf channel).Perm rs)
    (proper : ∀ r ∈ rs, r.epoch.Proper) (adjacent : Adjacent (·.epoch) rs) :
    c.TakeTurns channel := by
  refine ⟨fun r member => proper r (listed.mem_iff.1 member), ?_⟩
  refine (listed.pairwise_iff ?_).2 (pairwise_apart_of_adjacent proper adjacent)
  intro r other apart t late early
  exact apart t early late

end TakeTurns

/-- The lookup of a response divides time into the epochs of its channel. Where these end after they
begin and do not overlap, an instant is answered with the response whose epoch it lies in, the start
included and the end not, and with no data if it lies in none. The order in which responses are
stored does not matter. If each epoch ends where another begins, first to last, then the instants
answered are those from the first start to the last end, and where two epochs meet the later one
answers. -/
theorem response_dividesTime {catalog : Catalog} {channel : ChannelId}
    (turns : catalog.TakeTurns channel) :
    (∀ t, (∀ r ∈ catalog.responsesOf channel, r.epoch.InEffect t →
          catalog.service.response channel t = .ok r.response) ∧
        ((∀ r ∈ catalog.responsesOf channel, ¬ r.epoch.InEffect t) →
          catalog.service.response channel t = .error .noData)) ∧
      (∀ other : Catalog, other.responses.Perm catalog.responses →
        ∀ t, other.service.response channel t = catalog.service.response channel t) ∧
      ∀ first later, (catalog.responsesOf channel).Perm (first :: later) →
        ((first :: later).IsChain fun r next => r.epoch.stop = some next.epoch.start) →
        (∀ t, (∃ response, catalog.service.response channel t = .ok response) ↔
          first.epoch.start ≤ t ∧
            ∀ stop ∈ ((first :: later).getLast (List.cons_ne_nil _ _)).epoch.stop, t < stop) ∧
        ∀ r next boundary, [r, next] <:+: first :: later → r.epoch.stop = some boundary →
          catalog.service.response channel boundary = .ok next.response := by
  refine ⟨?_, ?_, ?_⟩
  · intro t
    exact ⟨fun r listed inEffect => turns.service_response listed inEffect, turns.service_noData⟩
  · intro other same t
    exact turns.service_response_of_perm same t
  · intro first later listed chain
    have proper : ∀ r ∈ first :: later, r.epoch.Proper :=
      fun r member => turns.proper r (listed.mem_iff.2 member)
    have adjacent : Adjacent (·.epoch) (first :: later) := chain
    refine ⟨?_, ?_⟩
    · intro t
      rw [turns.exists_service_response_iff, ← exists_inEffect_iff_of_adjacent proper adjacent]
      simp only [listed.mem_iff]
    · intro r next boundary beside ends
      have following : next ∈ first :: later := beside.subset (by simp)
      have meets : r.epoch.stop = some next.epoch.start := by
        have two := chain.infix beside
        exact (List.isChain_cons_cons.1 two).1
      obtain rfl : next.epoch.start = boundary := Option.some.inj (meets.symm.trans ends)
      exact turns.service_response (listed.mem_iff.2 following)
        (proper next following).inEffect_start

/-- The response of the channel GE.APE..BHZ from 2000-02-29 to 2004-02-29. -/
def olderResponse : ResponseEpoch :=
  ⟨⟨"GE", "APE", "  ", "BHZ"⟩,
    ⟨(Instant.ofUnix? 951782400 0).get rfl, some ((Instant.ofUnix? 1078012800 0).get rfl)⟩, ⟨[]⟩⟩

/-- The response of the same channel from then on to 2008-02-29. -/
def newerResponse : ResponseEpoch :=
  ⟨⟨"GE", "APE", "  ", "BHZ"⟩,
    ⟨(Instant.ofUnix? 1078012800 0).get rfl, some ((Instant.ofUnix? 1204243200 0).get rfl)⟩,
    ⟨[⟨none, []⟩]⟩⟩

/-- A catalog with both responses, the newer one stored first. -/
def twoTurns : Catalog := ⟨[], [], [], [newerResponse, olderResponse]⟩

theorem response_dividesTime_twoTurns :
    let answer := twoTurns.service.response olderResponse.channel
    twoTurns.TakeTurns olderResponse.channel ∧
      answer olderResponse.epoch.start = .ok olderResponse.response ∧
      answer newerResponse.epoch.start = .ok newerResponse.response ∧
      (∀ stop ∈ newerResponse.epoch.stop, answer stop = .error .noData) ∧
      ∀ t, (∃ response, answer t = .ok response) ↔
        olderResponse.epoch.start ≤ t ∧ ∀ stop ∈ newerResponse.epoch.stop, t < stop := by
  intro answer
  have stored : twoTurns.responsesOf olderResponse.channel = [newerResponse, olderResponse] := rfl
  have listed : (twoTurns.responsesOf olderResponse.channel).Perm
      [olderResponse, newerResponse] := by
    rw [stored]
    exact .swap ..
  have proper : ∀ r ∈ [olderResponse, newerResponse], r.epoch.Proper := by decide
  have adjacent : [olderResponse, newerResponse].IsChain fun r next =>
      r.epoch.stop = some next.epoch.start := List.isChain_cons_cons.2 ⟨rfl, .singleton _⟩
  have turns : twoTurns.TakeTurns olderResponse.channel := .of_adjacent listed proper adjacent
  obtain ⟨answers, -, gapless⟩ := response_dividesTime turns
  obtain ⟨answered, meeting⟩ := gapless olderResponse [newerResponse] listed adjacent
  refine ⟨turns, ?_, ?_, ?_, answered⟩
  · have known : olderResponse ∈ twoTurns.responsesOf olderResponse.channel := by simp [stored]
    exact (answers _).1 olderResponse known (by decide)
  · exact meeting olderResponse newerResponse _ (List.infix_refl _) rfl
  · rintro stop ⟨⟩
    refine (answers _).2 ?_
    rw [stored]
    decide

end Seismogram.Directory.Catalog
