import Seismogram.Codec
import Seismogram.Proofs.Steim.Outcome

/-!
# What decoding needs of a buffer

Frames are read from the front until they hold what is wanted. To want fewer samples is therefore
to stop earlier with the first of them, and frames behind those that were needed are never looked
at, however broken they are.
-/

namespace Seismogram.Steim

section Gathering

variable {e : Encoding} {wanted fewer : Nat} {cells : List Cell} {frames rest : List (List Cell)}
  {ds : List Sample}

theorem gather_zero (e : Encoding) (frames : List (List Cell)) : gather e 0 frames = .ok [] := by
  cases frames <;> rfl

/-- A frame is read if anything is wanted, and its differences count for the frames after it. -/
theorem gather_cons (some : wanted ≠ 0) (cells : List Cell) (rest : List (List Cell)) :
    gather e wanted (cells :: rest) =
      (differences e cells).bind fun ds =>
        (gather e (wanted - ds.length) rest).map fun more => ds ++ more := by
  rw [gather, if_neg some]
  cases differences e cells with
  | error fault => rfl
  | ok ds =>
    simp only [Except.bind]
    cases gather e (wanted - ds.length) rest <;> rfl

theorem gather_cons_eq_ok_iff (some : wanted ≠ 0) :
    gather e wanted (cells :: rest) = .ok ds ↔
      ∃ here more, differences e cells = .ok here ∧
        gather e (wanted - here.length) rest = .ok more ∧ here ++ more = ds := by
  rw [gather, if_neg some]
  cases differences e cells with
  | error fault => simp
  | ok here =>
    dsimp only
    cases later : gather e (wanted - here.length) rest with
    | error fault => simp [later]
    | ok more => simp [later]

/-- Where fewer differences are wanted, the first of them are gathered, and enough of these if there
were enough of all. -/
theorem gather_of_le (gathered : gather e wanted frames = .ok ds) (le : fewer ≤ wanted) :
    ∃ front, gather e fewer frames = .ok front ∧ front <+: ds ∧
      (wanted ≤ ds.length → fewer ≤ front.length) := by
  induction frames generalizing wanted fewer ds with
  | nil =>
    obtain rfl : [] = ds := Except.ok.inj gathered
    exact ⟨[], rfl, List.prefix_rfl, fun enough => Nat.le_trans le enough⟩
  | cons cells rest ih =>
    by_cases none : fewer = 0
    · subst none
      exact ⟨[], gather_zero e _, List.nil_prefix, fun _ => Nat.zero_le _⟩
    · obtain ⟨here, more, read, later, rfl⟩ := (gather_cons_eq_ok_iff (by omega)).1 gathered
      obtain ⟨front, further, initial, enough⟩ := ih later (Nat.sub_le_sub_right le here.length)
      refine ⟨here ++ front, (gather_cons_eq_ok_iff none).2 ⟨here, front, read, further, rfl⟩,
        (List.prefix_append_right_inj here).2 initial, ?_⟩
      simp only [List.length_append]
      omega

/-- Frames behind those that hold enough change nothing. -/
theorem gather_append (gathered : gather e wanted frames = .ok ds) (enough : wanted ≤ ds.length)
    (behind : List (List Cell)) : gather e wanted (frames ++ behind) = .ok ds := by
  induction frames generalizing wanted ds with
  | nil =>
    obtain rfl : [] = ds := Except.ok.inj gathered
    obtain rfl : wanted = 0 := Nat.le_zero.1 enough
    exact gather_zero e behind
  | cons cells rest ih =>
    by_cases none : wanted = 0
    · subst none
      exact (gather_zero e _).trans ((gather_zero e _).symm.trans gathered)
    · obtain ⟨here, more, read, later, rfl⟩ := (gather_cons_eq_ok_iff none).1 gathered
      rw [List.length_append] at enough
      exact (gather_cons_eq_ok_iff none).2 ⟨here, more, read, ih later (by omega), rfl⟩

end Gathering

section Samples

variable {e : Encoding} {wanted fewer : Nat} {first : Frame} {rest : List Frame}
  {decoded : List Sample}

theorem samples_eq_ok_iff :
    samples e wanted (first :: rest) = .ok decoded ↔
      ∃ ds, gather e wanted (dataCells (first :: rest)) = .ok ds ∧ wanted ≤ ds.length ∧
        integrate (first.body.getD 0 0).toSample ((ds.take wanted).drop 1) = decoded := by
  rw [samples]
  cases gather e wanted (dataCells (first :: rest)) with
  | error fault => simp
  | ok ds =>
    by_cases few : ds.length < wanted
    · simp [few, Nat.not_le_of_lt few]
    · simp [few, Nat.le_of_not_lt few]

theorem samples_of_le (found : samples e wanted (first :: rest) = .ok decoded)
    (le : fewer ≤ wanted) (some : fewer ≠ 0) :
    samples e fewer (first :: rest) = .ok (decoded.take fewer) := by
  obtain ⟨ds, gathered, enough, rfl⟩ := samples_eq_ok_iff.1 found
  obtain ⟨front, read, initial, held⟩ := gather_of_le gathered le
  obtain ⟨k, rfl⟩ := Nat.exists_eq_succ_of_ne_zero some
  have same : front.take (k + 1) = ds.take (k + 1) := by
    obtain ⟨behind, rfl⟩ := initial
    rw [List.take_append_of_le_length (held enough)]
  refine samples_eq_ok_iff.2 ⟨front, read, held enough, ?_⟩
  rw [take_integrate, same, List.drop_take, List.drop_take, List.take_take,
    Nat.min_eq_left (by omega)]
  rfl

theorem samples_append (found : samples e wanted (first :: rest) = .ok decoded)
    (behind : List Frame) : samples e wanted (first :: (rest ++ behind)) = .ok decoded := by
  obtain ⟨ds, gathered, enough, rfl⟩ := samples_eq_ok_iff.1 found
  have cells : dataCells (first :: (rest ++ behind)) =
      dataCells (first :: rest) ++ behind.map Frame.cells := by
    rw [dataCells, dataCells, List.map_append]
    rfl
  refine samples_eq_ok_iff.2 ⟨ds, ?_, enough, rfl⟩
  rw [cells]
  exact gather_append gathered enough _

end Samples

/-- Whole words come first, whatever follows them. -/
theorem Word.ofBuffer_append (order : ByteOrder) {buffer : List UInt8}
    (whole : buffer.length % 4 = 0) (extra : List UInt8) :
    Word.ofBuffer order (buffer ++ extra) =
      Word.ofBuffer order buffer ++ Word.ofBuffer order extra := by
  fun_induction Word.ofBuffer order buffer with
  | case1 a b c d rest ih =>
    simp only [List.length_cons] at whole
    rw [List.cons_append, List.cons_append, List.cons_append, List.cons_append, Word.ofBuffer,
      ih (by omega), List.cons_append]
  | case2 buffer short =>
    rcases buffer with - | ⟨a, - | ⟨b, - | ⟨c, - | ⟨d, rest⟩⟩⟩⟩
    · rfl
    · cases whole
    · cases whole
    · cases whole
    · exact absurd rfl (short a b c d rest)

/-- Whole frames come first, whatever follows them. -/
theorem Frame.ofWords_append {words : List Word} (whole : words.length % frameWords = 0)
    (extra : List Word) :
    Frame.ofWords (words ++ extra) = Frame.ofWords words ++ Frame.ofWords extra := by
  fun_induction Frame.ofWords words with
  | case1 => rfl
  | case2 control rest ih =>
    simp only [frameWords, List.length_cons, List.length_drop] at whole ih ⊢
    rw [List.cons_append, Frame.ofWords, frameWords, List.take_append_of_le_length (by omega),
      List.drop_append_of_le_length (by omega), ih (by omega), List.cons_append]

section Decoding

variable {e : Encoding} {buffer : List UInt8} {wanted : Nat} {order : ByteOrder}
  {decoded : List Sample}

/-- Samples come from whole frames, of which there is at least one. -/
theorem exists_frames_of_decode (some : wanted ≠ 0)
    (found : (decode e buffer wanted order).samples = .ok decoded) :
    buffer.length % frameBytes = 0 ∧
      ∃ first rest, Frame.ofWords (Word.ofBuffer order buffer) = first :: rest ∧
        samples e wanted (first :: rest) = .ok decoded := by
  by_cases whole : buffer.length % frameBytes = 0
  · rw [samples_decode e order some whole] at found
    cases frames : Frame.ofWords (Word.ofBuffer order buffer) with
    | nil =>
      rw [frames] at found
      cases found
    | cons first rest =>
      rw [frames] at found
      refine ⟨whole, first, rest, rfl, ?_⟩
      cases decoded' : samples e wanted (first :: rest) with
      | error fault =>
        rw [decoded'] at found
        cases found
      | ok _ =>
        rw [decoded'] at found
        exact congrArg Except.ok (Except.ok.inj found)
  · rw [decode_of_partial e order some whole] at found
    cases found

theorem decode_of_le (found : (decode e buffer wanted order).samples = .ok decoded) {fewer : Nat}
    (le : fewer ≤ wanted) :
    (decode e buffer fewer order).samples = .ok (decoded.take fewer) := by
  by_cases none : fewer = 0
  · subst none
    rw [decode_zero, List.take_zero]
  · obtain ⟨whole, first, rest, frames, read⟩ := exists_frames_of_decode (by omega) found
    rw [samples_decode e order none whole, frames, samples_of_le read le none]
    rfl

theorem decode_append (found : (decode e buffer wanted order).samples = .ok decoded)
    {extra : List UInt8} (framed : extra.length % frameBytes = 0) :
    decode e (buffer ++ extra) wanted order = decode e buffer wanted order := by
  by_cases none : wanted = 0
  · subst none
    rw [decode_zero, decode_zero]
  · obtain ⟨whole, first, rest, frames, read⟩ := exists_frames_of_decode none found
    rw [frameBytes] at whole framed
    have together : (buffer ++ extra).length % frameBytes = 0 := by
      rw [List.length_append, frameBytes]
      omega
    have words := Word.length_ofBuffer order buffer
    rw [decode_of_whole e order none whole, decode_of_whole e order none together,
      Word.ofBuffer_append order (by omega),
      Frame.ofWords_append (by rw [frameWords]; omega), frames, List.cons_append, read,
      samples_append read]
    rfl

end Decoding

/-- Decoding depends on the frames it needs and on nothing behind them. If `wanted` samples can be
decoded, any fewer are the first of them, and whole frames behind the buffer, even such as cannot be
decoded, change neither the samples nor what is logged. So where a count fails, every larger one
does. -/
theorem decode_needed (machine : ByteOrder) (e : Encoding) (buffer : List UInt8) (wanted : Nat)
    (swap : Bool) :
    (∀ decoded, ((Codec.native machine).decode ⟨e, buffer, wanted, swap⟩).samples = .ok decoded →
      (∀ fewer ≤ wanted,
        ((Codec.native machine).decode ⟨e, buffer, fewer, swap⟩).samples =
          .ok (decoded.take fewer)) ∧
      ∀ extra : List UInt8, extra.length % 64 = 0 →
        (Codec.native machine).decode ⟨e, buffer ++ extra, wanted, swap⟩ =
          (Codec.native machine).decode ⟨e, buffer, wanted, swap⟩) ∧
    ∀ more ≥ wanted,
      (∃ failure,
        ((Codec.native machine).decode ⟨e, buffer, wanted, swap⟩).samples = .error failure) →
      ∃ failure,
        ((Codec.native machine).decode ⟨e, buffer, more, swap⟩).samples = .error failure := by
  have shorter (n : Nat) (decoded : List Sample)
      (found : ((Codec.native machine).decode ⟨e, buffer, n, swap⟩).samples = .ok decoded) :
      ∀ fewer ≤ n,
        ((Codec.native machine).decode ⟨e, buffer, fewer, swap⟩).samples =
          .ok (decoded.take fewer) :=
    fun fewer le => decode_of_le found le
  refine ⟨?_, ?_⟩
  · intro decoded found
    exact ⟨shorter wanted decoded found, fun extra framed => decode_append found framed⟩
  · rintro more le ⟨failure, failed⟩
    cases answer : ((Codec.native machine).decode ⟨e, buffer, more, swap⟩).samples with
    | error failure => exact ⟨failure, rfl⟩
    | ok decoded =>
      rw [shorter more decoded answer wanted le] at failed
      cases failed

/-- A frame that holds the samples 1 to 4. -/
def fourSamples : List UInt8 :=
  [1, 0, 0, 0, 0, 0, 0, 1, 0, 0, 0, 4, 0, 1, 1, 1] ++ List.replicate 48 0

/-- A frame of undefined words behind four samples is only looked at for a fifth. -/
theorem decode_needed_fourSamples :
    let broken : List UInt8 := List.replicate 64 255
    ((Codec.native .little).decode ⟨.steim2, fourSamples, 4, true⟩).samples = .ok [1, 2, 3, 4] ∧
      ((Codec.native .little).decode ⟨.steim2, fourSamples, 2, true⟩).samples = .ok [1, 2] ∧
      (Codec.native .little).decode ⟨.steim2, fourSamples ++ broken, 4, true⟩ =
        ⟨[], .ok [1, 2, 3, 4]⟩ ∧
      ((Codec.native .little).decode ⟨.steim2, fourSamples ++ broken, 5, true⟩).samples =
        .error (.steim (.undefinedLayout .steim2 3 3)) := by
  intro broken
  have four :
      (Codec.native .little).decode ⟨.steim2, fourSamples, 4, true⟩ = ⟨[], .ok [1, 2, 3, 4]⟩ := by
    show decode .steim2 fourSamples 4 .big = _
    rw [decode_of_whole _ _ (Nat.succ_ne_zero 3) rfl, Frame.ofWords_eq _ rfl]
    rfl
  have five : ((Codec.native .little).decode ⟨.steim2, fourSamples ++ broken, 5, true⟩).samples =
      .error (.steim (.undefinedLayout .steim2 3 3)) := by
    show (decode .steim2 (fourSamples ++ List.replicate 64 255) 5 .big).samples = _
    rw [samples_decode _ _ (Nat.succ_ne_zero 4) (by decide +kernel), Frame.ofWords_eq _ rfl]
    rfl
  have found := congrArg Answer.samples four
  obtain ⟨shorter, longer⟩ := (decode_needed .little .steim2 fourSamples 4 true).1 _ found
  exact ⟨found, shorter 2 (by omega), (longer broken (by decide)).trans four, five⟩

end Seismogram.Steim
