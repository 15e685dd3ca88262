/-!
# Sampling intervals

A sampling interval is described by a value, a power of ten, a multiplier and an exponent on a base
unit of measurement.
-/

namespace Seismogram

/-- The base units a quantity can be given in. -/
inductive BaseUnit where
  | meter
  | second
  | gram
  | ampere
  | kelvin
  | mole
  | candela
  | count
  | composite
  deriving DecidableEq, Repr

namespace BaseUnit

def all : List BaseUnit :=
  [.meter, .second, .gram, .ampere, .kelvin, .mole, .candela, .count, .composite]

def name : BaseUnit → String
  | .meter => "METER"
  | .second => "SECOND"
  | .gram => "GRAM"
  | .ampere => "AMPERE"
  | .kelvin => "KELVIN"
  | .mole => "MOLE"
  | .candela => "CANDELA"
  | .count => "COUNT"
  | .composite => "COMPOSITE"

theorem mem_all (unit : BaseUnit) : unit ∈ all := by
  cases unit <;> decide

end BaseUnit

/-- The quantity `(value · 10 ^ power · multiplier) ^ exponent` in a base unit. -/
structure SamplingInterval where
  value : Float
  unit : BaseUnit
  power : Int
  multiplier : Float
  exponent : Int

/-- Why an interval or a rate cannot be used. -/
inductive IntervalFault where
  /-- A rate was asked for no samples at all. -/
  | noSamples
  /-- The interval in seconds is not finite or not above zero. -/
  | notPositive (seconds : Float)
  /-- The quotient of samples and seconds is out of range. -/
  | rateNotFinite (samples : Nat) (seconds : Float)
  /-- A trace carries a rate that no time axis can be built from. -/
  | traceRate (trace : String) (rate : Float)
  /-- A fault that someone else reports in words. -/
  | described (text : String)

end Seismogram
