import Seismogram.Assembly.Batch

/-!
# Batches seen through some of their events

Whoever looks at a batch may attend to its result and to some of its events only, such as the
warnings. What is seen in this way of a batch is determined by what is seen of its chunks, each
alone: two batches that look the same chunk by chunk look the same as a whole, under either policy
and for every division of the work.
-/

namespace Seismogram

open Assembly

def Event.warning? : Event → Option Log.Line
  | .line l => if l.level = .warn then some l else none
  | _ => none

theorem Event.warnings_eq_filterMap (events : List Event) :
    Event.warnings events = events.filterMap Event.warning? := by
  rw [warnings, lines, List.filter_filterMap]
  apply congrArg (events.filterMap ·)
  funext event
  cases event with
  | line l => by_cases warn : l.level = .warn <;> simp [warning?, warn]
  | decode _ => rfl
  | ask _ => rfl
  | convert _ _ => rfl

section Keeping

variable {α β δ : Type} (keep : Event → Option δ)

/-- The result of an operation with those of its events that are kept. -/
def Outcome.keeping (o : Outcome α) : Workers.Yield δ (Except Failure α) :=
  ⟨o.events.filterMap keep, o.result⟩

variable {keep}

theorem Outcome.keeping_eq_iff {o o' : Outcome α} :
    o.keeping keep = o'.keeping keep ↔
      o.events.filterMap keep = o'.events.filterMap keep ∧ o.result = o'.result := by
  rw [keeping, keeping, Workers.Yield.mk.injEq]

theorem Outcome.eq_of_keeping_some {o o' : Outcome α} (same : o.keeping some = o'.keeping some) :
    o = o' := by
  obtain ⟨events, result⟩ := keeping_eq_iff.1 same
  rw [List.filterMap_some, List.filterMap_some] at events
  obtain ⟨_, _⟩ := o
  obtain ⟨_, _⟩ := o'
  exact congr (congrArg Outcome.mk events) result

theorem Outcome.keeping_bind {first first' : Outcome α} {next next' : α → Outcome β}
    (same : first.keeping keep = first'.keeping keep)
    (later : ∀ a, (next a).keeping keep = (next' a).keeping keep) :
    (first >>= next).keeping keep = (first' >>= next').keeping keep := by
  obtain ⟨events, result⟩ := keeping_eq_iff.1 same
  rw [keeping_eq_iff, result_bind, result_bind, events_bind, events_bind, List.filterMap_append,
    List.filterMap_append, events, result]
  cases first'.result with
  | error failure => exact ⟨rfl, rfl⟩
  | ok a =>
    obtain ⟨events, result⟩ := keeping_eq_iff.1 (later a)
    exact ⟨congrArg _ events, result⟩

/-! ### Chunks and records -/

variable {codec codec' : Codec} {host host' : ByteOrder}

theorem Chunk.keeping_decodeAll {chunks chunks' : List Chunk}
    (same : (chunks.map fun c => (c.decode codec host).keeping keep) =
      chunks'.map fun c => (c.decode codec' host').keeping keep) :
    (Chunk.decodeAll codec host chunks).keeping keep =
      (Chunk.decodeAll codec' host' chunks').keeping keep := by
  induction chunks generalizing chunks' with
  | nil =>
    obtain rfl := List.map_eq_nil_iff.1 same.symm
    rfl
  | cons chunk rest ih =>
    obtain ⟨chunk', rest', rfl, first, others⟩ := List.map_eq_cons_iff.1 same.symm
    rw [decodeAll, decodeAll]
    apply Outcome.keeping_bind first.symm
    intro samples
    apply Outcome.keeping_bind (ih others.symm)
    intro more
    rfl

/-- A record whose chunks are replaced by others that look alike looks alike. -/
theorem Record.keeping_assemble (r : Record) {chunks : List Chunk}
    (same : (r.chunks.map fun c => (c.decode codec host).keeping keep) =
      chunks.map fun c => (c.decode codec' host').keeping keep) :
    (r.assemble codec host).keeping keep =
      ({ r with chunks := chunks }.assemble codec' host').keeping keep := by
  have count : r.chunks.length = chunks.length := by simpa using congrArg List.length same
  have keepAlive : Record.isKeepAlive { r with chunks := chunks } = r.isKeepAlive := rfl
  rw [assemble, assemble, keepAlive]
  split
  · rfl
  · apply Outcome.keeping_bind rfl
    intro rate
    apply Outcome.keeping_bind (Chunk.keeping_decodeAll same)
    intro data
    apply Outcome.keeping_bind rfl
    intro _
    have metric : Record.metric { r with chunks := chunks } rate = r.metric rate := by
      rw [Record.metric, Record.metric, count]
    rw [metric]
    rfl

/-! ### Batches -/

namespace Assembly.Assembler

/-- Settling looks at the channels of records only. -/
theorem settle_zip (policy : Policy) (index : Nat) {records records' : List Record}
    (same : records.map Record.channel = records'.map Record.channel) (attempts : List Attempt) :
    settle policy index (records.zip attempts) = settle policy index (records'.zip attempts) := by
  induction records generalizing index records' attempts with
  | nil =>
    obtain rfl := List.map_eq_nil_iff.1 same.symm
    rfl
  | cons r rest ih =>
    obtain ⟨r', rest', rfl, channel, others⟩ := List.map_eq_cons_iff.1 same.symm
    cases attempts with
    | nil => rfl
    | cons attempt attempts =>
      have later := ih (index + 1) others.symm attempts
      rw [List.zip_cons_cons, List.zip_cons_cons]
      obtain failure | _ | trace := attempt <;> simp only [settle, later, channel]

variable {a a' : Assembler}

theorem keeping_attemptUntilFailure {records records' : List Record}
    (same : (records.map fun r => (a.record r).keeping keep) =
      records'.map fun r => (a'.record r).keeping keep) (index : Nat) :
    (a.attemptUntilFailure index records).keeping keep =
      (a'.attemptUntilFailure index records').keeping keep := by
  induction records generalizing index records' with
  | nil =>
    obtain rfl := List.map_eq_nil_iff.1 same.symm
    rfl
  | cons r rest ih =>
    obtain ⟨r', rest', rfl, first, others⟩ := List.map_eq_cons_iff.1 same.symm
    obtain ⟨events, result⟩ := Outcome.keeping_eq_iff.1 first
    have later := ih others.symm (index + 1)
    rw [Workers.Yield.keeping, Workers.Yield.keeping, Workers.Yield.mk.injEq] at later
    rw [attemptUntilFailure, attemptUntilFailure, result]
    cases (a.record r).result with
    | error failure => simp [Workers.Yield.keeping, events]
    | ok trace => simp [Workers.Yield.keeping, events, later]

theorem keeping_attemptAll {records records' : List Record}
    (same : (records.map fun r => (a.record r).keeping keep) =
      records'.map fun r => (a'.record r).keeping keep) :
    (a.attemptAll records).keeping keep = (a'.attemptAll records').keeping keep := by
  have parts (a : Assembler) (records : List Record) : (a.attemptAll records).keeping keep =
      ⟨(records.map fun r => (a.record r).keeping keep).flatMap Workers.Yield.events,
        (records.map fun r => (a.record r).keeping keep).map Workers.Yield.result⟩ := by
    simp [attemptAll, Workers.Yield.keeping, List.filterMap_flatMap, List.flatMap_map,
      Outcome.keeping, Function.comp_def]
  rw [parts, parts, same]

theorem keeping_attempts (policy : a.settings.policy = a'.settings.policy)
    (execution : a.settings.execution = a'.settings.execution) {records records' : List Record}
    (same : (records.map fun r => (a.record r).keeping keep) =
      records'.map fun r => (a'.record r).keeping keep) (schedule : List Nat) :
    (a.attempts schedule records).keeping keep = (a'.attempts schedule records').keeping keep := by
  rw [attempts, attempts, ← policy, ← execution]
  cases a.settings.execution with
  | parallel workers =>
    rw [Workers.keeping_share, Workers.keeping_share]
    exact congrArg (Workers.share id workers schedule) same
  | sequential =>
    cases a.settings.policy with
    | failFast => exact keeping_attemptUntilFailure same 0
    | collectErrors => exact keeping_attemptAll same

/-- Batches whose records have the same channels and look alike one by one look alike. -/
theorem keeping_assembleUnder (policy : a.settings.policy = a'.settings.policy)
    (execution : a.settings.execution = a'.settings.execution) {records records' : List Record}
    (channels : records.map Record.channel = records'.map Record.channel)
    (same : (records.map fun r => (a.record r).keeping keep) =
      records'.map fun r => (a'.record r).keeping keep) (schedule : List Nat) :
    (a.assembleUnder schedule records).keeping keep =
      (a'.assembleUnder schedule records').keeping keep := by
  have count : records.length = records'.length := by simpa using congrArg List.length channels
  have attempted := keeping_attempts policy execution same schedule
  rw [Workers.Yield.keeping, Workers.Yield.keeping, Workers.Yield.mk.injEq] at attempted
  rw [assembleUnder, assembleUnder, attempted.2, ← policy, ← count,
    settle_zip a.settings.policy 0 channels]
  apply Outcome.keeping_bind
  · exact Outcome.keeping_eq_iff.2 ⟨attempted.1, rfl⟩
  · intro _
    rfl

end Assembly.Assembler
end Keeping
end Seismogram
