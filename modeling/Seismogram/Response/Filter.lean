/-!
# Filters of an instrument response

A response is a list of stages, each a list of filters with an optional normalization. Only
pole/zero filters can be converted; the other kinds are kept as they were reported.
-/

namespace Seismogram

inductive FilterKind where
  | poleZero
  | coefficient
  | list
  deriving DecidableEq, Repr

namespace FilterKind

def all : List FilterKind := [.poleZero, .coefficient, .list]

def name : FilterKind → String
  | .poleZero => "POLEZERO"
  | .coefficient => "COEFFICIENT"
  | .list => "LIST"

def key : FilterKind → String
  | .poleZero => "POLE_ZERO"
  | .coefficient => "COEFFICIENT"
  | .list => "LIST"

theorem mem_all (kind : FilterKind) : kind ∈ all := by
  cases kind <;> decide

end FilterKind

/-- A complex number with an error for each part. -/
structure MeasuredComplex where
  real : Float
  imaginary : Float
  realError : Float
  imaginaryError : Float

structure PoleZeroData where
  poles : List MeasuredComplex
  zeros : List MeasuredComplex

structure CoefficientData where
  numerator : List Float
  denominator : List Float

structure ListData where
  frequency : List Float
  amplitude : List Float
  phase : List Float

inductive Filter where
  | poleZero (data : PoleZeroData)
  | coefficient (data : CoefficientData)
  | list (data : ListData)

def Filter.kind : Filter → FilterKind
  | .poleZero _ => .poleZero
  | .coefficient _ => .coefficient
  | .list _ => .list

/-- The factor and the frequency a stage is normalized with. -/
structure Normalization where
  factor : Float
  frequency : Float

structure ResponseStage where
  normalization : Option Normalization
  filters : List Filter

structure InstrumentResponse where
  stages : List ResponseStage

structure Complex where
  re : Float
  im : Float

/-- A pole/zero description of a response, without errors. -/
structure PoleZeroResponse where
  poles : List Complex
  zeros : List Complex
  gain : Float
  normalizationFrequency : Option Float

end Seismogram
