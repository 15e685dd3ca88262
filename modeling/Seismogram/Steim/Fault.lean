import Seismogram.Encoding

/-!
# Faults of encoded frames

Why frames cannot be decoded into the samples asked for.
-/

namespace Seismogram.Steim

inductive Fault where
  /-- Samples are asked of a buffer without frames. -/
  | noFrames (encoding : Encoding) (wanted : Nat)
  /-- A data word whose selector bits name no field layout. -/
  | undefinedLayout (encoding : Encoding) (nibble selector : Nat)
  /-- All frames together hold fewer differences than samples are asked for. -/
  | tooFew (encoding : Encoding) (wanted held : Nat)
  /-- A fault that another decoder reports in words. -/
  | described (text : String)
  deriving DecidableEq, Repr

namespace Fault

/-- Two binary digits. -/
def twoBits (n : Nat) : String := toString (n / 2 % 2) ++ toString (n % 2)

def message : Fault → String
  | .noFrames e wanted => s!"{e.name}: no frames for {wanted} samples"
  | .undefinedLayout e nibble selector =>
    s!"{e.name}: invalid dnib {twoBits selector} for nibble {twoBits nibble}"
  | .tooFew e wanted held => s!"{e.name}: expected {wanted} samples, frames hold only {held}"
  | .described text => text

end Fault
end Seismogram.Steim
