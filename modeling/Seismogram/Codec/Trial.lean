import Seismogram.Codec

/-!
# Codecs for trials

Codecs that answer without decoding anything. They show how an assembly deals with right, wrong and
missing answers.
-/

namespace Seismogram.Codec

/-- The most samples a trial codec makes up. -/
def trialLimit : Nat := 256

def answer (samples : List Steim.Sample) : Steim.Answer := ⟨[], .ok samples⟩

/-- Takes the first bytes as signed samples; the second encoding negates them. -/
def bytes : Codec :=
  ⟨fun call => answer <| (call.buffer.take call.wanted).map fun byte =>
    let sample := Int32.ofInt (Int.bmod byte.toNat 256)
    match call.encoding with
    | .steim1 => sample
    | .steim2 => -sample⟩

def ramp : Codec :=
  ⟨fun call => answer <| (List.range (min call.wanted trialLimit)).map fun n => Int32.ofNat n⟩

def short : Codec := ⟨fun call => answer (List.replicate (min (call.wanted - 1) trialLimit) 0)⟩

def long : Codec := ⟨fun call => answer (List.replicate (min call.wanted trialLimit + 1) 0)⟩

/-- Fails, naming the call. -/
def failing : Codec :=
  ⟨fun call =>
    let version := match call.encoding with
      | .steim1 => "1"
      | .steim2 => "2"
    ⟨[], .error (.steim (.described s!"stub {version} {call.wanted} {call.swap}"))⟩⟩

end Seismogram.Codec
