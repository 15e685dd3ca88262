import Seismogram.Assembly.Batch

/-!
# What assembling does besides

Assembling writes to the log and calls the codec, and does nothing else: it puts no question to a
directory service and hands nothing to a converter. This is said of single events and carried from
one step to the next.
-/

namespace Seismogram

open Assembly

/-- The events that assembling may bring about. -/
def Event.OfAssembly : Event → Prop
  | .line _ => True
  | .decode _ => True
  | _ => False

/-- Every event of an operation is of a kind. -/
def Outcome.Emits {α : Type} (kind : Event → Prop) (o : Outcome α) : Prop :=
  ∀ event ∈ o.events, kind event

namespace Outcome.Emits

variable {α β : Type} {kind : Event → Prop}

theorem pure (a : α) : (Pure.pure a : Outcome α).Emits kind := by
  intro event member
  cases member

theorem ofResult (result : Except Failure α) : (Outcome.ofResult result).Emits kind := by
  intro event member
  cases member

theorem emitAll {events : List Event} (h : ∀ event ∈ events, kind event) :
    (Outcome.emitAll events).Emits kind := h

theorem emit {event : Event} (h : kind event) : (Outcome.emit event).Emits kind := by
  intro event' member
  rwa [List.mem_singleton.1 member]

theorem bind {first : Outcome α} {next : α → Outcome β} (hf : first.Emits kind)
    (hn : ∀ a, (next a).Emits kind) : (first >>= next).Emits kind := by
  intro event member
  rw [events_bind, List.mem_append] at member
  rcases member with member | member
  · exact hf event member
  · cases result : first.result with
    | error failure =>
      rw [result] at member
      cases member
    | ok a =>
      rw [result] at member
      exact hn a event member

theorem questions_eq_nil {o : Outcome α} (h : o.Emits kind)
    (other : ∀ question, ¬ kind (.ask question)) : Event.questions o.events = [] := by
  apply List.filterMap_eq_nil_iff.2
  intro event member
  cases event with
  | ask question => exact absurd (h _ member) (other question)
  | line _ => rfl
  | decode _ => rfl
  | convert _ _ => rfl

end Outcome.Emits

section Assembling

variable (codec : Codec) (host : ByteOrder)

theorem Chunk.emits_decode (chunk : Chunk) :
    (chunk.decode codec host).Emits Event.OfAssembly := by
  have called (call : Codec.Call) (lines : List Log.Line) :
      ∀ event ∈ (.decode call :: lines.map .line : List Event), event.OfAssembly := by
    intro event member
    rcases List.mem_cons.1 member with rfl | member
    · trivial
    · obtain ⟨line, -, rfl⟩ := List.mem_map.1 member
      trivial
  rw [decode]
  split
  · exact .ofResult _
  · dsimp only
    split
    · exact called _ _
    · split
      · intro event member
        rcases List.mem_append.1 member with member | member
        · exact called _ _ event member
        · rw [List.mem_singleton.1 member]
          trivial
      · exact called _ _

theorem Chunk.emits_decodeAll (chunks : List Chunk) :
    (Chunk.decodeAll codec host chunks).Emits Event.OfAssembly := by
  induction chunks with
  | nil => exact .pure _
  | cons chunk rest ih =>
    refine .bind (chunk.emits_decode codec host) ?_
    intro samples
    exact ih.bind fun more => .pure _

theorem Record.emits_assemble (r : Record) : (r.assemble codec host).Emits Event.OfAssembly := by
  rw [assemble]
  split
  · exact .bind (.emit trivial) fun _ => .pure _
  · refine .bind (.ofResult _) ?_
    intro rate
    refine .bind (Chunk.emits_decodeAll codec host r.chunks) ?_
    intro data
    refine .bind (.ofResult _) ?_
    intro _
    exact .bind (.emit trivial) fun _ => .pure _

end Assembling

namespace Assembly.Assembler

variable (a : Assembler)

theorem emits_attemptUntilFailure (index : Nat) (records : List Record) :
    ∀ event ∈ (a.attemptUntilFailure index records).events, event.OfAssembly := by
  induction records generalizing index with
  | nil =>
    intro event member
    cases member
  | cons r rest ih =>
    have first := r.emits_assemble a.codec a.settings.host
    intro event member
    rw [attemptUntilFailure] at member
    dsimp only at member
    split at member
    · rcases List.mem_append.1 member with member | member
      · exact first event member
      · rw [List.mem_singleton.1 member]
        trivial
    · rcases List.mem_append.1 member with member | member
      · exact first event member
      · exact ih (index + 1) event member

theorem emits_attempts (schedule : List Nat) (records : List Record) :
    ∀ event ∈ (a.attempts schedule records).events, event.OfAssembly := by
  have all : ∀ event ∈ records.flatMap fun r => (a.record r).events, event.OfAssembly := by
    intro event member
    obtain ⟨r, -, member⟩ := List.mem_flatMap.1 member
    exact r.emits_assemble a.codec a.settings.host event member
  rw [attempts]
  split
  · exact a.emits_attemptUntilFailure 0 records
  · exact all
  · intro event member
    exact all event ((Workers.events_share_perm ..).mem_iff.1 member)

theorem emits_settle (policy : Policy) (index : Nat) (attempts : List (Record × Attempt)) :
    (settle policy index attempts).Emits Event.OfAssembly := by
  induction attempts generalizing index with
  | nil => exact .pure _
  | cons head rest ih =>
    have later := ih (index + 1)
    obtain ⟨r, failure | _ | trace⟩ := head
    · refine .bind (.emit trivial) ?_
      intro _
      cases policy with
      | failFast => exact .ofResult _
      | collectErrors => exact later.bind fun _ => .pure _
    · exact later.bind fun _ => .pure _
    · exact later.bind fun _ => .pure _

theorem emits_assembleUnder (schedule : List Nat) (records : List Record) :
    (a.assembleUnder schedule records).Emits Event.OfAssembly := by
  refine .bind (.emitAll (a.emits_attempts schedule records)) ?_
  intro _
  refine .bind (emits_settle _ _ _) ?_
  intro report
  exact .bind (.emit trivial) fun _ => .pure _

end Assembly.Assembler
end Seismogram
