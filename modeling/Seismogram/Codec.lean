import Seismogram.Steim.Decode

/-!
# Codecs

A codec turns the encoded bytes of a chunk into samples. It is a function of the call made to
it, and returns what it logs along with its answer.
-/

namespace Seismogram

/-- What a codec is asked for. The swap flag says that words are stored in the order which is not
the machine's. -/
structure Codec.Call where
  encoding : Encoding
  buffer : List UInt8
  wanted : Nat
  swap : Bool
  deriving DecidableEq, Repr

structure Codec where
  decode : Codec.Call → Steim.Answer

namespace Codec

/-- The codec of this library, on a machine with the given byte order. -/
def native (machine : ByteOrder) : Codec :=
  ⟨fun call => Steim.decode call.encoding call.buffer call.wanted (machine.ofSwap call.swap)⟩

end Codec
end Seismogram
