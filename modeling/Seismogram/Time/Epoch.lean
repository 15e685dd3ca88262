import Seismogram.Time.Instant

/-!
# Epochs

The time for which a station, a channel or a response is in effect.
-/

namespace Seismogram.Time

/-- A span of time from `start` on, up to `stop` if it has an end. -/
structure Epoch where
  start : Instant
  stop : Option Instant
  deriving DecidableEq

namespace Epoch

/-- Whether an instant lies strictly inside an epoch. -/
def contains (epoch : Epoch) (t : Instant) : Bool :=
  decide (epoch.start < t) && epoch.stop.all fun stop => decide (t < stop)

def covers (epoch : Epoch) (t : Instant) : Bool :=
  decide (epoch.start = t) || epoch.contains t

theorem contains_iff {epoch : Epoch} {t : Instant} :
    epoch.contains t = true ↔ epoch.start < t ∧ ∀ stop ∈ epoch.stop, t < stop := by
  cases h : epoch.stop <;> simp [contains, h]

theorem covers_iff {epoch : Epoch} {t : Instant} :
    epoch.covers t = true ↔
      epoch.start = t ∨ epoch.start < t ∧ ∀ stop ∈ epoch.stop, t < stop := by
  rw [covers, Bool.or_eq_true, decide_eq_true_iff, contains_iff]

end Epoch
end Seismogram.Time
