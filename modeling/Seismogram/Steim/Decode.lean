import Seismogram.Failure
import Seismogram.Log
import Seismogram.Steim.Frame

/-!
# Decoding frames into samples

The differences of the data words are gathered frame by frame until enough are held, and summed up
from the forward integration constant on. The first difference leads over from the record before, so
it is counted and not added. The reverse integration constant only serves as a check: a last sample
that differs from it is reported in the log.
-/

namespace Seismogram.Steim

/-- The differences of a list of cells, or the fault of the first cell that has one. -/
def differences (e : Encoding) : List Cell → Except Fault (List Sample)
  | [] => .ok []
  | cell :: rest =>
    match cell.differences e with
    | .error fault => .error fault
    | .ok ds =>
      match differences e rest with
      | .error fault => .error fault
      | .ok more => .ok (ds ++ more)

/-- The differences of the leading frames that are needed to hold `wanted` of them. A frame is read
in full or not at all. -/
def gather (e : Encoding) (wanted : Nat) : List (List Cell) → Except Fault (List Sample)
  | [] => .ok []
  | cells :: rest =>
    if wanted = 0 then .ok []
    else
      match differences e cells with
      | .error fault => .error fault
      | .ok ds =>
        match gather e (wanted - ds.length) rest with
        | .error fault => .error fault
        | .ok more => .ok (ds ++ more)

/-- A first sample followed by the running sums of differences. -/
def integrate (first : Sample) : List Sample → List Sample
  | [] => [first]
  | d :: ds => first :: integrate (first + d) ds

@[simp] theorem length_integrate (first : Sample) (ds : List Sample) :
    (integrate first ds).length = ds.length + 1 := by
  induction ds generalizing first with
  | nil => rfl
  | cons d ds ih => simp [integrate, ih]

/-- The first samples need only the differences between them. -/
theorem take_integrate (first : Sample) (ds : List Sample) (n : Nat) :
    (integrate first ds).take (n + 1) = integrate first (ds.take n) := by
  induction ds generalizing first n with
  | nil => simp [integrate]
  | cons d ds ih =>
    cases n with
    | zero => simp [integrate]
    | succ n => rw [integrate, List.take_succ_cons, ih, List.take_succ_cons, integrate]

/-- The samples of a list of frames, or why there are not `wanted` of them. -/
def samples (e : Encoding) (wanted : Nat) (frames : List Frame) : Except Fault (List Sample) :=
  match frames with
  | [] => .error (.noFrames e wanted)
  | first :: _ =>
    match gather e wanted (dataCells frames) with
    | .error fault => .error fault
    | .ok ds =>
      if ds.length < wanted then .error (.tooFew e wanted ds.length)
      else .ok (integrate (first.body.getD 0 0).toSample ((ds.take wanted).drop 1))

/-- The line that reports a last sample other than the reverse integration constant. -/
def checkLast (e : Encoding) (frames : List Frame) (decoded : List Sample) : List Log.Line :=
  match frames.head?, decoded.getLast? with
  | some first, some last =>
    let reverse := Word.toSample (first.body.getD 1 0)
    if last = reverse then []
    else
      [⟨.warn, s!"{e.name}: last sample {last.toInt} does not match " ++
        s!"reverse integration constant {reverse.toInt}"⟩]
  | _, _ => []

/-- Nothing is reported where the last sample is the reverse integration constant. -/
theorem checkLast_eq_nil {e : Encoding} {first : Frame} {rest : List Frame} {decoded : List Sample}
    (last : decoded.getLast? = some (Word.toSample (first.body.getD 1 0))) :
    checkLast e (first :: rest) decoded = [] := by
  simp [checkLast, last]

/-- What a decoder answers: the lines it logged, and the samples or a failure. -/
structure Answer where
  lines : List Log.Line
  samples : Except Failure (List Sample)

/-- Decodes `wanted` samples from a buffer whose words are stored in the given order. No samples
need no frames, so nothing is checked for them. -/
def decode (e : Encoding) (buffer : List UInt8) (wanted : Nat) (order : ByteOrder) : Answer :=
  if wanted = 0 then ⟨[], .ok []⟩
  else if buffer.length % frameBytes ≠ 0 then
    ⟨[], .error (.bufferLength frameBytes buffer.length)⟩
  else
    let frames := Frame.ofWords (Word.ofBuffer order buffer)
    match samples e wanted frames with
    | .error fault => ⟨[], .error (.steim fault)⟩
    | .ok decoded => ⟨checkLast e frames decoded, .ok decoded⟩

theorem decode_zero (e : Encoding) (buffer : List UInt8) (order : ByteOrder) :
    decode e buffer 0 order = ⟨[], .ok []⟩ := rfl

theorem decode_of_partial (e : Encoding) {buffer : List UInt8} {wanted : Nat} (order : ByteOrder)
    (pos : wanted ≠ 0) (length : buffer.length % frameBytes ≠ 0) :
    decode e buffer wanted order = ⟨[], .error (.bufferLength frameBytes buffer.length)⟩ := by
  rw [decode, if_neg pos, if_pos length]

theorem decode_of_whole (e : Encoding) {buffer : List UInt8} {wanted : Nat} (order : ByteOrder)
    (pos : wanted ≠ 0) (length : buffer.length % frameBytes = 0) :
    decode e buffer wanted order =
      match samples e wanted (Frame.ofWords (Word.ofBuffer order buffer)) with
      | .error fault => ⟨[], .error (.steim fault)⟩
      | .ok decoded =>
        ⟨checkLast e (Frame.ofWords (Word.ofBuffer order buffer)) decoded, .ok decoded⟩ := by
  rw [decode, if_neg pos, if_neg (by simpa using length)]

theorem samples_decode (e : Encoding) {buffer : List UInt8} {wanted : Nat} (order : ByteOrder)
    (pos : wanted ≠ 0) (length : buffer.length % frameBytes = 0) :
    (decode e buffer wanted order).samples =
      (samples e wanted (Frame.ofWords (Word.ofBuffer order buffer))).mapError .steim := by
  rw [decode_of_whole e order pos length]
  cases samples e wanted (Frame.ofWords (Word.ofBuffer order buffer)) <;> rfl

end Seismogram.Steim
