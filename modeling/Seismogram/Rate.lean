import Seismogram.Double.Basic
import Seismogram.Failure

/-!
# Sampling rates

The interval of a record covers all of its samples, so the rate is their number over the interval in
seconds. Only seconds are understood as a unit, and only a finite rate from a finite interval above
zero is taken.
-/

namespace Seismogram

namespace SamplingInterval

def seconds (interval : SamplingInterval) : Except Failure Float :=
  if interval.unit = .second then
    let base := interval.value * Double.pow 10.0 interval.power * interval.multiplier
    .ok (Double.pow base interval.exponent)
  else .error (.unitNotSecond interval.unit)

/-- The samples per second of a number of samples. -/
def rate (interval : SamplingInterval) (samples : Nat) : Except Failure Float :=
  match interval.seconds with
  | .error failure => .error failure
  | .ok seconds =>
    if samples = 0 then .error (.interval .noSamples)
    else if !seconds.isFinite || seconds ≤ 0.0 then .error (.interval (.notPositive seconds))
    else
      let rate := Double.ofCount samples / seconds
      if rate.isFinite then .ok rate else .error (.interval (.rateNotFinite samples seconds))

theorem isFinite_of_rate {interval : SamplingInterval} {samples : Nat} {rate : Float}
    (h : interval.rate samples = .ok rate) : rate.isFinite = true := by
  unfold SamplingInterval.rate at h
  split at h
  · cases h
  · simp only at h
    split at h
    · cases h
    · split at h
      · cases h
      · split at h
        · next hf => cases h; exact hf
        · cases h

end SamplingInterval
end Seismogram
