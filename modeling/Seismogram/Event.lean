import Seismogram.Codec
import Seismogram.Directory.Service

/-!
# Events and outcomes

An operation has a result and, on the way to it, writes log lines and calls codecs, converters and
directory services. All of these are events, and an outcome is the list of them in order together
with the result. Later events never change earlier ones.
-/

namespace Seismogram

inductive Event where
  | line (line : Log.Line)
  /-- A call that reaches a codec. -/
  | decode (call : Codec.Call)
  /-- A question that reaches a directory service. -/
  | ask (question : Directory.Question)
  /-- Pole/zero data that reach a converter. -/
  | convert (data : PoleZeroData) (normalization : Option Normalization)

namespace Event

def lines (events : List Event) : List Log.Line :=
  events.filterMap fun
    | .line l => some l
    | _ => none

def warnings (events : List Event) : List Log.Line :=
  (lines events).filter fun line => decide (line.level = .warn)

def calls (events : List Event) : List Codec.Call :=
  events.filterMap fun
    | .decode c => some c
    | _ => none

def questions (events : List Event) : List Directory.Question :=
  events.filterMap fun
    | .ask q => some q
    | _ => none

/-- What reaches a converter among events. -/
def conversions (events : List Event) : List (PoleZeroData × Option Normalization) :=
  events.filterMap fun
    | .convert data normalization => some (data, normalization)
    | _ => none

@[simp] theorem lines_append (front back : List Event) :
    lines (front ++ back) = lines front ++ lines back := List.filterMap_append ..

@[simp] theorem warnings_append (front back : List Event) :
    warnings (front ++ back) = warnings front ++ warnings back := by
  rw [warnings, lines_append, List.filter_append]
  rfl

@[simp] theorem calls_append (front back : List Event) :
    calls (front ++ back) = calls front ++ calls back := List.filterMap_append ..

@[simp] theorem lines_map_line (ls : List Log.Line) : lines (ls.map line) = ls := by
  rw [lines, List.filterMap_map]
  exact List.filterMap_some

@[simp] theorem calls_map_line (ls : List Log.Line) : calls (ls.map line) = [] := by
  simp [calls]

end Event

/-- The events of an operation and its result. -/
structure Outcome (α : Type) where
  events : List Event
  result : Except Failure α

namespace Outcome

variable {α β : Type}

def ofResult (result : Except Failure α) : Outcome α := ⟨[], result⟩

def fail (failure : Failure) : Outcome α := ⟨[], .error failure⟩

def emit (event : Event) : Outcome Unit := ⟨[event], .ok ()⟩

def emitAll (events : List Event) : Outcome Unit := ⟨events, .ok ()⟩

def log (level : Log.Level) (text : String) : Outcome Unit := emit (.line ⟨level, text⟩)

/-- Goes on from a result; after a failure nothing more happens. -/
def andThen (first : Outcome α) (next : α → Outcome β) : Outcome β :=
  match first.result with
  | .error failure => ⟨first.events, .error failure⟩
  | .ok a => ⟨first.events ++ (next a).events, (next a).result⟩

instance : Monad Outcome where
  pure a := ofResult (.ok a)
  bind := andThen

theorem andThen_andThen {γ : Type} (first : Outcome α) (next : α → Outcome β)
    (last : β → Outcome γ) :
    (first.andThen next).andThen last = first.andThen fun a => (next a).andThen last := by
  obtain ⟨events, result⟩ := first
  cases result with
  | error failure => rfl
  | ok a =>
    show andThen ⟨events ++ (next a).events, (next a).result⟩ last
      = ⟨events ++ (andThen (next a) last).events, (andThen (next a) last).result⟩
    simp only [andThen]
    cases (next a).result <;> simp

instance : LawfulMonad Outcome := LawfulMonad.mk' Outcome
  (fun first => by
    obtain ⟨events, result⟩ := first
    cases result with
    | error failure => rfl
    | ok a => exact congrArg (fun es => (⟨es, .ok a⟩ : Outcome _)) (List.append_nil events))
  (fun _ _ => rfl)
  andThen_andThen

@[simp] theorem events_pure (a : α) : (pure a : Outcome α).events = [] := rfl

@[simp] theorem result_pure (a : α) : (pure a : Outcome α).result = .ok a := rfl

theorem result_bind (first : Outcome α) (next : α → Outcome β) :
    (first >>= next).result = first.result.bind fun a => (next a).result := by
  show (andThen first next).result = _
  rw [andThen]
  cases first.result <;> rfl

theorem result_bind_eq_ok_iff {first : Outcome α} {next : α → Outcome β} {b : β} :
    (first >>= next).result = .ok b ↔
      ∃ a, first.result = .ok a ∧ (next a).result = .ok b := by
  rw [result_bind]
  cases first.result <;> simp [Except.bind]

theorem events_bind (first : Outcome α) (next : α → Outcome β) :
    (first >>= next).events = first.events ++
      match first.result with
      | .ok a => (next a).events
      | .error _ => [] := by
  show (andThen first next).events = _
  rw [andThen]
  cases first.result with
  | error failure => exact (List.append_nil _).symm
  | ok a => rfl

theorem calls_bind_eq_nil {first : Outcome α} {next : α → Outcome β}
    (silent : Event.calls first.events = []) (next_silent : ∀ a, Event.calls (next a).events = []) :
    Event.calls (first >>= next).events = [] := by
  rw [events_bind, Event.calls_append, silent]
  cases first.result with
  | error failure => rfl
  | ok a => exact next_silent a

theorem bind_of_ok {first : Outcome α} {a : α} (h : first.result = .ok a)
    (next : α → Outcome β) :
    first >>= next = ⟨first.events ++ (next a).events, (next a).result⟩ := by
  show andThen first next = _
  simp only [andThen, h]

theorem bind_pure_of_ok {first : Outcome α} {a : α} (h : first.result = .ok a) (f : α → β) :
    (first >>= fun a => pure (f a)) = ⟨first.events, .ok (f a)⟩ := by
  rw [bind_of_ok h, events_pure, List.append_nil, result_pure]

theorem bind_of_error {first : Outcome α} {failure : Failure} (h : first.result = .error failure)
    (next : α → Outcome β) : first >>= next = ⟨first.events, .error failure⟩ := by
  show andThen first next = _
  simp only [andThen, h]

end Outcome
end Seismogram
