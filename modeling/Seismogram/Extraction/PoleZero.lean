import Seismogram.Event

/-!
# Poles and zeros of a response

The first filter of the first stage of a response has to be a pole/zero filter. It is handed to a
converter together with the normalization of its stage.
-/

namespace Seismogram

/-- A converter of pole/zero data; a function of its arguments. -/
structure Converter where
  convert : PoleZeroData → Option Normalization → Except Failure PoleZeroResponse

namespace Converter

/-- The converter that drops the errors and takes gain and frequency from the normalization; without
one the gain is 1. -/
def standard : Converter :=
  ⟨fun data normalization =>
    let plain (z : MeasuredComplex) : Complex := ⟨z.real, z.imaginary⟩
    .ok
      { poles := data.poles.map plain
        zeros := data.zeros.map plain
        gain := (normalization.map (·.factor)).getD 1.0
        normalizationFrequency := normalization.map (·.frequency) }⟩

/-- A converter for trials, which fails and names what it was given. -/
def failing : Converter :=
  ⟨fun data normalization =>
    .error (.internal (.described (
      s!"converter called: {data.poles.length} poles, {data.zeros.length} zeros, " ++
        s!"normalization {normalization.isSome}")))⟩

end Converter

def InstrumentResponse.filterKinds (r : InstrumentResponse) : List FilterKind :=
  r.stages.flatMap fun stage => stage.filters.map Filter.kind

def InstrumentResponse.poleZero (r : InstrumentResponse) (converter : Converter) :
    Outcome PoleZeroResponse :=
  match r.stages with
  | [] => .fail (.incompleteResponse .stage)
  | stage :: _ =>
    match stage.filters with
    | [] => .fail (.incompleteResponse .filter)
    | .poleZero data :: _ =>
      ⟨[.convert data stage.normalization], converter.convert data stage.normalization⟩
    | filter :: _ => .fail (.filterKind filter.kind)

end Seismogram
