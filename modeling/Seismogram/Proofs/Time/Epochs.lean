import Mathlib.Data.List.Chain
import Seismogram.Time.Epoch

/-!
# Epochs side by side

An epoch holds the instants strictly inside it; what is in effect for an epoch is so from its start
on and no longer at its end. Where the spans of time of several things do not overlap, an instant
lies in one of them at most, in whatever order the things are kept. Epochs that end where the next
one begins leave no gap: what lies between the first start and the last end lies in one of them.
-/

namespace Seismogram.Time

namespace Epoch

def Inside (e : Epoch) (t : Instant) : Prop := e.start < t ∧ ∀ stop ∈ e.stop, t < stop

/-- An epoch is in effect at an instant: at its start, but not at its end. -/
def InEffect (e : Epoch) (t : Instant) : Prop := e.start ≤ t ∧ ∀ stop ∈ e.stop, t < stop

/-- An epoch that ends only after it has begun. -/
def Proper (e : Epoch) : Prop := ∀ stop ∈ e.stop, e.start < stop

instance (e : Epoch) (t : Instant) : Decidable (e.Inside t) :=
  inferInstanceAs (Decidable (_ ∧ _))

instance (e : Epoch) (t : Instant) : Decidable (e.InEffect t) :=
  inferInstanceAs (Decidable (_ ∧ _))

instance (e : Epoch) : Decidable e.Proper :=
  inferInstanceAs (Decidable (∀ stop ∈ e.stop, e.start < stop))

theorem Proper.inEffect_start {e : Epoch} (proper : e.Proper) : e.InEffect e.start :=
  ⟨Int.le_refl _, proper⟩

/-- The two ways to be covered, on the start and inside, make up the time in effect. An epoch that
ends before it begins would cover its start without being in effect. -/
theorem Proper.covers_iff {e : Epoch} (proper : e.Proper) {t : Instant} :
    e.covers t = true ↔ e.InEffect t := by
  rw [Epoch.covers_iff]
  constructor
  · rintro (rfl | ⟨after, before⟩)
    · exact proper.inEffect_start
    · exact ⟨Int.le_of_lt after, before⟩
  · rintro ⟨onOrAfter, before⟩
    rcases Int.lt_or_eq_of_le onOrAfter with after | on
    · exact .inr ⟨after, before⟩
    · exact .inl (Instant.ticks_inj.1 on)

end Epoch

/-! ### Spans that do not overlap -/

/-- No two members of a list hold an instant in common exactly if no instant is held twice. -/
theorem pairwise_apart_iff {α : Type} (holds : α → Instant → Prop)
    [∀ a t, Decidable (holds a t)] (as : List α) :
    as.Pairwise (fun a b => ∀ t, holds a t → ¬ holds b t) ↔
      ∀ t, (as.filter fun a => decide (holds a t)).length ≤ 1 := by
  induction as with
  | nil => simp
  | cons a rest ih =>
    rw [List.pairwise_cons, ih]
    constructor
    · rintro ⟨apart, rare⟩ t
      by_cases held : holds a t
      · have alone : rest.filter (fun b => decide (holds b t)) = [] := by
          rw [List.filter_eq_nil_iff]
          intro b member
          simpa using apart b member t held
        simp [held, alone]
      · simpa [held] using rare t
    · intro rare
      refine ⟨?_, ?_⟩
      · intro b member t heldA heldB
        have second : b ∈ rest.filter fun b => decide (holds b t) := by simp [member, heldB]
        have further := List.length_pos_of_mem second
        have both : (rest.filter fun b => decide (holds b t)).length + 1 ≤ 1 := by
          simpa [heldA] using rare t
        omega
      · intro t
        have fewer := (List.sublist_cons_self a rest).filter fun b => decide (holds b t)
        exact Nat.le_trans fewer.length_le (rare t)

/-- A list of one member at most has no other order. -/
theorem eq_of_perm_of_length_le_one {α : Type} {as bs : List α} (perm : as.Perm bs)
    (short : as.length ≤ 1) : as = bs := by
  cases as with
  | nil => exact perm.nil_eq
  | cons a rest =>
    have none : rest.length = 0 := Nat.le_zero.1 (Nat.le_of_succ_le_succ short)
    obtain rfl := List.eq_nil_of_length_eq_zero none
    exact (List.perm_singleton.1 perm.symm).symm

/-! ### Epochs one after another -/

section Adjacent

variable {α : Type} (epoch : α → Epoch)

/-- The epoch of each member of a list ends where that of the next one begins. -/
def Adjacent (as : List α) : Prop :=
  as.IsChain fun a next => (epoch a).stop = some (epoch next).start

variable {epoch} {a : α} {later : List α}

/-- In adjacent epochs no later one starts before the end of the first. -/
theorem stop_le_start_of_adjacent (proper : ∀ b ∈ a :: later, (epoch b).Proper)
    (adjacent : Adjacent epoch (a :: later)) {b : α} (member : b ∈ later) {stop : Instant}
    (ends : stop ∈ (epoch a).stop) : stop ≤ (epoch b).start := by
  induction later generalizing a stop with
  | nil => cases member
  | cons next rest ih =>
    obtain ⟨meets, adjacent⟩ := List.isChain_cons_cons.1 adjacent
    obtain rfl : (epoch next).start = stop := Option.some.inj (meets.symm.trans ends)
    rcases List.mem_cons.1 member with rfl | further
    · exact Int.le_refl _
    · obtain ⟨after, others, rfl⟩ := List.exists_cons_of_ne_nil (List.ne_nil_of_mem further)
      have bounded : (epoch next).stop = some (epoch after).start :=
        (List.isChain_cons_cons.1 adjacent).1
      have begun := proper next (by simp) (epoch after).start bounded
      have onwards := ih (fun b listed => proper b (.tail _ listed)) adjacent further bounded
      exact Int.le_trans (Int.le_of_lt begun) onwards

theorem pairwise_apart_of_adjacent {as : List α} (proper : ∀ a ∈ as, (epoch a).Proper)
    (adjacent : Adjacent epoch as) :
    as.Pairwise fun a b => ∀ t, (epoch a).InEffect t → ¬ (epoch b).InEffect t := by
  induction as with
  | nil => exact .nil
  | cons a later ih =>
    have others := ih (fun b listed => proper b (.tail _ listed)) adjacent.of_cons
    refine List.pairwise_cons.2 ⟨?_, others⟩
    intro b member t early late
    obtain ⟨next, rest, rfl⟩ := List.exists_cons_of_ne_nil (List.ne_nil_of_mem member)
    have meets : (epoch a).stop = some (epoch next).start := (List.isChain_cons_cons.1 adjacent).1
    have ended := stop_le_start_of_adjacent proper adjacent member meets
    exact Int.not_lt.2 (Int.le_trans ended late.1) (early.2 _ meets)

/-- Adjacent epochs leave no gap from the first start to the last end, and reach no further. -/
theorem exists_inEffect_iff_of_adjacent (proper : ∀ b ∈ a :: later, (epoch b).Proper)
    (adjacent : Adjacent epoch (a :: later)) (t : Instant) :
    (∃ b ∈ a :: later, (epoch b).InEffect t) ↔
      (epoch a).start ≤ t ∧
        ∀ stop ∈ (epoch ((a :: later).getLast (List.cons_ne_nil _ _))).stop, t < stop := by
  induction later generalizing a t with
  | nil => simp [Epoch.InEffect]
  | cons next rest ih =>
    obtain ⟨meets, adjacent⟩ := List.isChain_cons_cons.1 adjacent
    have tail := ih (fun b listed => proper b (.tail _ listed)) adjacent
    have begun : (epoch a).start < (epoch next).start := proper a (by simp) _ meets
    -- the next epoch is in effect at its own start, so the last one has not ended by then
    have lasting := ((tail (epoch next).start).1
      ⟨next, by simp, (proper next (by simp)).inEffect_start⟩).2
    have own : (epoch a).InEffect t ↔ (epoch a).start ≤ t ∧ t < (epoch next).start := by
      simp [Epoch.InEffect, meets]
    rw [List.exists_mem_cons_iff, tail, own, List.getLast_cons_cons]
    constructor
    · rintro (⟨onOrAfter, before⟩ | ⟨onOrAfter, before⟩)
      · exact ⟨onOrAfter, fun stop ends => Int.lt_trans before (lasting stop ends)⟩
      · exact ⟨Int.le_trans (Int.le_of_lt begun) onOrAfter, before⟩
    · rintro ⟨onOrAfter, before⟩
      rcases Int.lt_or_le t.ticks (epoch next).start.ticks with inside | behind
      · exact .inl ⟨onOrAfter, inside⟩
      · exact .inr ⟨behind, before⟩

end Adjacent
end Seismogram.Time
