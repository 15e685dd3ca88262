import Seismogram.Event
import Seismogram.Record

/-!
# Decoding a chunk

The compression code of a chunk is looked up before any codec is called, and a codec that returns
another number of samples than the chunk declares is not believed.
-/

namespace Seismogram

def Chunk.metric (e : Encoding) (swap : Bool) (samples : Nat) : Log.Line :=
  Log.metric [("event", "decode_chunk"), ("encoding", e.name), ("swap", toString swap),
    ("samples", toString samples)]

def Chunk.call (chunk : Chunk) (e : Encoding) (host : ByteOrder) : Codec.Call :=
  ⟨e, chunk.values, chunk.samples, chunk.byteOrder.needsSwap host⟩

def Chunk.decode (codec : Codec) (host : ByteOrder) (chunk : Chunk) :
    Outcome (List Steim.Sample) :=
  match Encoding.ofCode? chunk.compression with
  | none => .fail (.unknownCompression chunk.compression)
  | some e =>
    let call := chunk.call e host
    let answer := codec.decode call
    let events := .decode call :: answer.lines.map .line
    match answer.samples with
    | .error failure => ⟨events, .error failure⟩
    | .ok samples =>
      if samples.length = chunk.samples then
        ⟨events ++ [.line (Chunk.metric e call.swap samples.length)], .ok samples⟩
      else ⟨events, .error (.sampleCount chunk.samples samples.length)⟩

/-- The samples of a list of chunks one after another, or the failure of the first chunk that has
one; no chunk after it is decoded. -/
def Chunk.decodeAll (codec : Codec) (host : ByteOrder) : List Chunk → Outcome (List Steim.Sample)
  | [] => pure []
  | chunk :: rest => do
    let samples ← chunk.decode codec host
    let more ← decodeAll codec host rest
    return samples ++ more

theorem Chunk.length_of_decode {codec : Codec} {host : ByteOrder} {chunk : Chunk}
    {samples : List Steim.Sample} (h : (chunk.decode codec host).result = .ok samples) :
    samples.length = chunk.samples := by
  unfold Chunk.decode at h
  split at h
  · cases h
  · simp only at h
    split at h
    · cases h
    · split at h
      · next hl => cases h; exact hl
      · cases h

end Seismogram
