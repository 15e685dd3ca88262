import Seismogram.Codec
import Seismogram.Proofs.Steim.Reading

/-!
# The outcome of decoding

What the decoder answers on any buffer, any count and either byte order, said by the words of
the buffer and their numbers alone: which of the five failures it is, or which samples. The data
words are those with numbers 3 to 15 in the first frame and 1 to 15 in every other.
-/

namespace Seismogram.Steim

attribute [local instance (2000)] Zero.ofOfNat0

/-- The data words of frame `k` with their nibbles. The first frame begins with the two integration
constants. -/
def dataWords (words : List Word) (k : Nat) : List Cell :=
  (List.range' (if k = 0 then 3 else 1) (if k = 0 then 13 else 15)).map fun j =>
    ⟨Word.nibble (words.getD (16 * k) 0) j, words.getD (16 * k + j) 0⟩

def dataFrames (words : List Word) : List (List Cell) :=
  (List.range (words.length / 16)).map (dataWords words)

theorem nibble_dataFrames_lt (words : List Word) :
    ∀ c ∈ (dataFrames words).flatten, c.nibble < 4 := by
  intro c hc
  obtain ⟨cells, hcells, member⟩ := List.mem_flatten.1 hc
  obtain ⟨k, -, rfl⟩ := List.mem_map.1 hcells
  obtain ⟨j, -, rfl⟩ := List.mem_map.1 member
  exact Word.nibble_lt ..

namespace Frame

/-- The frame of sixteen words from a number on. -/
def slice (words : List Word) (start : Nat) : Frame :=
  ⟨words.getD start 0, (List.range' 1 15).map fun j => words.getD (start + j) 0⟩

/-- Words without the first frame are found sixteen places further on. -/
theorem slice_add (control : Word) (rest : List Word) (start : Nat) :
    Frame.slice (control :: rest) (16 + start) = Frame.slice (rest.drop 15) start := by
  have later : ∀ i, (control :: rest).getD (16 + i) 0 = (rest.drop 15).getD i 0 := by
    intro i
    rw [show 16 + i = (15 + i) + 1 by omega, List.getD_cons_succ, List.getD_eq_getElem?_getD,
      List.getD_eq_getElem?_getD, List.getElem?_drop]
  simp only [Frame.slice, Nat.add_assoc, later]

theorem ofWords_eq (words : List Word) (whole : words.length % 16 = 0) :
    ofWords words = (List.range (words.length / 16)).map fun k => Frame.slice words (16 * k) := by
  fun_induction ofWords words with
  | case1 => rfl
  | case2 control rest ih =>
    simp only [frameWords, List.length_cons, List.length_drop] at whole ih ⊢
    have count : (rest.length + 1) / 16 = (rest.length - 15) / 16 + 1 := by omega
    have first : rest.take 15 =
        (List.range' 1 15).map fun j => (control :: rest).getD (0 + j) 0 := by
      apply List.ext_getElem (by simp; omega)
      intro i hi _
      rw [List.length_take] at hi
      rw [List.getElem_take, List.getElem_map, List.getElem_range', Nat.zero_add, Nat.one_mul,
        Nat.add_comm 1 i, List.getD_cons_succ, List.getD_eq_getElem?_getD,
        List.getElem?_eq_getElem (by omega), Option.getD_some]
    rw [ih (by omega), count, List.range_succ_eq_map, List.map_cons, List.map_map]
    refine congr (congrArg _ ?_) (List.map_congr_left ?_)
    · rw [first]
      rfl
    · intro k _
      show Frame.slice (rest.drop 15) (16 * k) = Frame.slice (control :: rest) (16 * (k + 1))
      rw [Nat.mul_succ, Nat.add_comm, slice_add]

theorem cells_slice (words : List Word) (start : Nat) :
    (Frame.slice words start).cells = (List.range' 1 15).map fun j =>
      ⟨Word.nibble (words.getD start 0) j, words.getD (start + j) 0⟩ := by
  apply List.ext_getElem (by simp [Frame.slice])
  intro i _ _
  simp [Frame.cells, Frame.slice]

end Frame

/-- Frames are read off the words by number. -/
theorem dataCells_ofWords {words : List Word} (whole : words.length % 16 = 0) :
    dataCells (Frame.ofWords words) = dataFrames words := by
  rw [Frame.ofWords_eq words whole, dataFrames]
  cases words.length / 16 with
  | zero => rfl
  | succ n =>
    rw [List.range_succ_eq_map, List.map_cons, List.map_cons, dataCells, List.map_map, List.map_map,
      List.map_map, Frame.cells_slice, ← List.map_drop]
    refine congr (congrArg _ rfl) (List.map_congr_left ?_)
    intro k _
    exact Frame.cells_slice words (16 * (k + 1))

/-- The first of `wanted` samples is the forward integration constant, and each later one adds the
field with its number; the fields are those of all frames, reached or not. -/
theorem integrate_reached (e : Encoding) (frames : List (List Cell)) (forward : Sample)
    {wanted : Nat} (pos : wanted ≠ 0)
    (enough : wanted ≤ (carried e (reached e wanted frames)).length) :
    integrate forward
        ((((carried e (reached e wanted frames)).map Int32.ofInt).take wanted).drop 1) =
      (List.range wanted).map fun i =>
        Int32.ofInt (forward.toInt + (((carried e frames).drop 1).take i).sum) := by
  have same := take_carried_reached (e := e) frames wanted
  have count : wanted ≤ (carried e frames).length := by
    rw [← Nat.not_lt] at enough ⊢
    rwa [length_carried_reached_lt_iff] at enough
  have size : (((carried e frames).take wanted).drop 1).length + 1 = wanted := by
    rw [List.length_drop, List.length_take]
    omega
  rw [← List.map_take, same, ← List.map_drop, ← Int32.ofInt_toInt forward, integrate_ofInt, size,
    Int32.ofInt_toInt]
  apply List.map_congr_left
  intro i hi
  rw [List.mem_range] at hi
  rw [List.drop_take, List.take_take, Nat.min_eq_left (by omega)]

theorem samples_ofWords (e : Encoding) {words : List Word} (whole : words.length % 16 = 0)
    (nonempty : words ≠ []) {wanted : Nat} (pos : wanted ≠ 0) :
    samples e wanted (Frame.ofWords words) =
      match (reached e wanted (dataFrames words)).flatten.find? fun c => c.Undefined e with
      | some c => .error (.undefinedLayout e c.nibble c.word.selector)
      | none =>
        if (carried e (dataFrames words)).length < wanted then
          .error (.tooFew e wanted (carried e (dataFrames words)).length)
        else
          .ok ((List.range wanted).map fun i =>
            Int32.ofInt ((words.getD 1 0).toSample.toInt +
              (((carried e (dataFrames words)).drop 1).take i).sum)) := by
  have cells := dataCells_ofWords whole
  have gathered := gather_eq (e := e) (nibble_dataFrames_lt words) wanted
  obtain ⟨control, rest, rfl⟩ := List.exists_cons_of_ne_nil nonempty
  rw [Frame.ofWords] at cells ⊢
  have forward : (rest.take (frameWords - 1)).getD 0 0 = (control :: rest).getD 1 0 := by
    cases rest <;> rfl
  simp only [samples]
  rw [cells, gathered, reading, ← carried, forward]
  cases (reached e wanted (dataFrames (control :: rest))).flatten.find? _ with
  | some c => rfl
  | none =>
    simp only [List.length_map]
    by_cases few : (carried e (reached e wanted (dataFrames (control :: rest)))).length < wanted
    · rw [if_pos few, ← carried_reached_of_lt few, if_pos few]
    · have held : ¬ (carried e (dataFrames (control :: rest))).length < wanted := by
        rwa [length_carried_reached_lt_iff] at few
      rw [if_neg few, if_neg held, integrate_reached e _ _ pos (Nat.le_of_not_lt few)]

/-- What comes of decoding, for every encoding, buffer, count and swap flag. No samples need
nothing. Otherwise the length of the buffer is looked at first, then the first undefined word of
a reached frame, wherever it stands in the frame, and then the number of fields that all frames
hold. Sample `i` is the exact sum of the forward constant and the fields up to number `i`, field
0 left out, taken modulo `2 ^ 32`. -/
theorem decode_outcome (machine : ByteOrder) (e : Encoding) (buffer : List UInt8) (wanted : Nat)
    (swap : Bool) :
    ((Codec.native machine).decode ⟨e, buffer, wanted, swap⟩).samples =
      let words := Word.ofBuffer (machine.ofSwap swap) buffer
      let fields := carried e (dataFrames words)
      if wanted = 0 then .ok []
      else if buffer.length % 64 ≠ 0 then .error (.bufferLength 64 buffer.length)
      else if buffer = [] then .error (.steim (.noFrames e wanted))
      else
        match (reached e wanted (dataFrames words)).flatten.find? fun c => c.Undefined e with
        | some c => .error (.steim (.undefinedLayout e c.nibble c.word.selector))
        | none =>
          if fields.length < wanted then .error (.steim (.tooFew e wanted fields.length))
          else
            .ok ((List.range wanted).map fun i =>
              Int32.ofInt ((words.getD 1 0).toSample.toInt + ((fields.drop 1).take i).sum)) := by
  show (decode e buffer wanted (machine.ofSwap swap)).samples = _
  by_cases none : wanted = 0
  · rw [none, decode_zero, if_pos rfl]
  by_cases broken : buffer.length % 64 ≠ 0
  · rw [decode_of_partial e _ none broken, if_neg none, if_pos broken]
    rfl
  have whole : buffer.length % 64 = 0 := Decidable.not_not.1 broken
  rw [samples_decode e _ none whole, if_neg none, if_neg broken]
  by_cases empty : buffer = []
  · have words : Word.ofBuffer (machine.ofSwap swap) [] = [] := by simp [Word.ofBuffer]
    rw [if_pos empty, empty, words, Frame.ofWords]
    rfl
  have count := Word.length_ofBuffer (machine.ofSwap swap) buffer
  have nonempty : Word.ofBuffer (machine.ofSwap swap) buffer ≠ [] := by
    intro h
    have size := List.length_pos_iff.2 empty
    rw [h, List.length_nil] at count
    omega
  rw [if_neg empty, samples_ofWords e (by omega) nonempty none]
  generalize Word.ofBuffer (machine.ofSwap swap) buffer = words
  cases (reached e wanted (dataFrames words)).flatten.find? _ with
  | some c => rfl
  | none =>
    by_cases few : (carried e (dataFrames words)).length < wanted
    · simp only [if_pos few]
      rfl
    · simp only [if_neg few]
      rfl

end Seismogram.Steim
