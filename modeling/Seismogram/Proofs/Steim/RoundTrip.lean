import Seismogram.Codec
import Seismogram.Proofs.Steim.Reading
import Seismogram.Steim.Greedy

/-!
# Decoding what was encoded

Every encoding of a list of samples decodes to these samples, and nothing is logged: whatever
groups the differences were put into, wherever words without differences stand between them,
however many frames there are, and in either stored order. A difference that wraps around is one
like any other.
-/

namespace Seismogram.Steim

variable {e : Encoding}

/-- Legal words are read as the differences they were written with. -/
theorem reading_cells {slots : List Slot} (legal : ∀ slot ∈ slots, slot.Legal (layouts e)) :
    reading e (slots.map Slot.cell) = .ok (slots.flatMap Slot.differences) := by
  induction slots with
  | nil => rfl
  | cons slot rest ih =>
    have first := legal slot List.mem_cons_self
    rw [List.map_cons, ← List.singleton_append, reading_append,
      reading_singleton (Slot.nibble_cell_lt first), Slot.differences_cell first, ih]
    · rfl
    · intro s hs
      exact legal s (List.mem_cons_of_mem slot hs)

variable {plan : Plan} {x : Sample} {xs : List Sample}

def Plan.frames (plan : Plan) (x : Sample) (xs : List Sample) : List Frame :=
  Frame.lay plan.own (plan.cells x xs)

theorem exists_first_frame (plan : Plan) (x : Sample) (xs : List Sample) :
    ∃ first rest, plan.frames x xs = first :: rest ∧ first.body.length = frameWords - 1 ∧
      first.body.getD 0 0 = x.toUInt32 ∧
      first.body.getD 1 0 = ((x :: xs).getLast (List.cons_ne_nil x xs)).toUInt32 := by
  have full := Frame.full_lay plan.own (plan.cells x xs)
  rw [Plan.frames]
  rw [Plan.cells, Frame.lay] at full ⊢
  exact ⟨_, _, rfl, full _ List.mem_cons_self, rfl, rfl⟩

/-- The data words of an encoding are read as the differences of its plan. -/
theorem reading_frames (x : Sample) (xs : List Sample)
    (legal : ∀ slot ∈ plan.slots, slot.Legal (layouts e)) :
    reading e (dataCells (plan.frames x xs)).flatten = .ok plan.differences := by
  obtain ⟨first, rest, frames, size, -, -⟩ := exists_first_frame plan x xs
  obtain ⟨k, cells⟩ := Frame.flatMap_cells_lay plan.own (plan.cells x xs)
  have clipped : plan.slots.map (Cell.clip ∘ Slot.cell) = plan.slots.map Slot.cell := by
    apply List.map_congr_left
    intro slot hs
    exact Slot.clip_cell (legal slot hs)
  -- The zeros behind the last group are words without differences, so they belong to a longer plan.
  have padding : List.replicate k ⟨0, 0⟩ = (List.replicate k (Slot.skipped 0)).map Slot.cell := by
    rw [List.map_replicate]
    rfl
  have padded : ∀ slot ∈ plan.slots ++ List.replicate k (Slot.skipped 0),
      slot.Legal (layouts e) := by
    intro slot hs
    rcases List.mem_append.1 hs with hs | hs
    · exact legal slot hs
    · rw [List.eq_of_mem_replicate hs]
      trivial
  have nothing : (List.replicate k (Slot.skipped 0)).flatMap Slot.differences = [] := by
    rw [List.flatMap_eq_nil_iff]
    intro slot hs
    rw [List.eq_of_mem_replicate hs]
    rfl
  rw [frames, flatten_dataCells first rest (by rw [size]; decide), ← frames, Plan.frames, cells,
    Plan.cells, List.map_cons, List.map_cons, List.map_map, clipped, padding]
  show reading e (plan.slots.map Slot.cell ++ _) = _
  rw [← List.map_append, reading_cells padded, List.flatMap_append, nothing, List.append_nil]
  rfl

/-- Every encoding decodes to its samples without a word in the log. -/
theorem decode_encode (writes : plan.Writes (layouts e) x xs) (order : ByteOrder) :
    decode e (encode order plan x xs) (x :: xs).length order = ⟨[], .ok (x :: xs)⟩ := by
  obtain ⟨legal, lead, surplus, carried⟩ := writes
  have full := Frame.full_lay plan.own (plan.cells x xs)
  have whole : (encode order plan x xs).length % frameBytes = 0 := by
    rw [encode, Word.length_toBuffer, Frame.length_toWords full]
    simp only [frameWords, frameBytes]
    omega
  have read : Frame.ofWords (Word.ofBuffer order (encode order plan x xs)) = plan.frames x xs := by
    rw [encode, Word.ofBuffer_toBuffer, Frame.ofWords_toWords _ full, Plan.frames]
  obtain ⟨gathered, hg, taken⟩ := gather_of_reading (e := e) (nibble_dataCells_lt _)
    (reading_frames x xs legal) (x :: xs).length
  have wanted : gathered.take (x :: xs).length = lead :: deltas (x :: xs) := by
    rw [taken, carried, List.take_append_of_le_length (by simp), List.take_of_length_le (by simp)]
  have enough : ¬ gathered.length < (x :: xs).length := by
    have := congrArg List.length wanted
    simp only [List.length_take, List.length_cons, length_deltas] at this ⊢
    omega
  obtain ⟨first, rest, frames, -, forward, reverse⟩ := exists_first_frame plan x xs
  have decoded : samples e (x :: xs).length (plan.frames x xs) = .ok (x :: xs) := by
    rw [frames] at hg ⊢
    simp only [samples, hg]
    rw [if_neg enough, forward, wanted, List.drop_succ_cons, List.drop_zero, Word.toSample,
      Int32.toInt32_toUInt32, integrate_deltas]
  have some : (x :: xs).length ≠ 0 := Nat.succ_ne_zero _
  rw [decode_of_whole e order some whole, read, decoded]
  have last : (x :: xs).getLast? = Option.some (Word.toSample (first.body.getD 1 0)) := by
    rw [reverse, List.getLast?_eq_some_getLast (List.cons_ne_nil x xs), Word.toSample,
      Int32.toInt32_toUInt32]
  exact congrArg (Answer.mk · _) (by rw [frames, checkLast_eq_nil last])

/-- Decoding undoes every legal encoding of the second kind: groups in the seven layouts, with
nibble, leading bits, number and width of the fields, and words without differences wherever
they stand. -/
theorem decode_encode_steim2 {plan : Plan} {x : Sample} {xs : List Sample}
    (writes : plan.Writes
      [⟨1, none, 4, 8⟩, ⟨2, some 1, 1, 30⟩, ⟨2, some 2, 2, 15⟩, ⟨2, some 3, 3, 10⟩,
        ⟨3, some 0, 5, 6⟩, ⟨3, some 1, 6, 5⟩, ⟨3, some 2, 7, 4⟩] x xs)
    (machine : ByteOrder) (swap : Bool) :
    (Codec.native machine).decode
        ⟨.steim2, encode (machine.ofSwap swap) plan x xs, (x :: xs).length, swap⟩ =
      ⟨[], .ok (x :: xs)⟩ :=
  decode_encode (e := .steim2) writes (machine.ofSwap swap)

/-- A word in each of the seven layouts, and one without differences among them. -/
def sevenLayouts : Plan where
  slots :=
    [.group ⟨1, none, 4, 8⟩ [77, 1, -1, 5], .group ⟨2, some 1, 1, 30⟩ [-300000],
      .group ⟨2, some 2, 2, 15⟩ [1000, -1000], .group ⟨3, some 0, 5, 6⟩ [1, -1, 31, -32, 0],
      .skipped 3735928559, .group ⟨3, some 2, 7, 4⟩ [7, -8, 1, -1, 0, 2, -2],
      .group ⟨2, some 3, 3, 10⟩ [511, -512, 3], .group ⟨3, some 1, 6, 5⟩ [15, -16, 1, 0, -1, 2]]
  constants := (3, 1)
  own frame := frame + 2

/-- The samples after the first one that these words encode; the last word has two surplus
differences. -/
def sevenLayoutsSamples : List Sample :=
  [-41, -42, -37, -300037, -299037, -300037, -300036, -300037, -300006, -300038, -300038,
    -300031, -300039, -300038, -300039, -300039, -300037, -300039, -299528, -300040, -300037,
    -300022, -300038, -300037, -300037]

theorem decode_encode_sevenLayouts :
    sevenLayouts.Writes
        [⟨1, none, 4, 8⟩, ⟨2, some 1, 1, 30⟩, ⟨2, some 2, 2, 15⟩, ⟨2, some 3, 3, 10⟩,
          ⟨3, some 0, 5, 6⟩, ⟨3, some 1, 6, 5⟩, ⟨3, some 2, 7, 4⟩] (-42) sevenLayoutsSamples ∧
      (Codec.native .little).decode
          ⟨.steim2, encode .big sevenLayouts (-42) sevenLayoutsSamples, 26, true⟩ =
        ⟨[], .ok (-42 :: sevenLayoutsSamples)⟩ := by
  have writes : sevenLayouts.Writes
      [⟨1, none, 4, 8⟩, ⟨2, some 1, 1, 30⟩, ⟨2, some 2, 2, 15⟩, ⟨2, some 3, 3, 10⟩,
        ⟨3, some 0, 5, 6⟩, ⟨3, some 1, 6, 5⟩, ⟨3, some 2, 7, 4⟩] (-42) sevenLayoutsSamples :=
    ⟨by decide, 77, [-1, 2], by decide⟩
  exact ⟨writes, decode_encode_steim2 writes .little true⟩

/-- Decoding undoes every legal encoding of the first kind, however large a step between two samples
is. The encoders that fill frame after frame make such encodings. -/
theorem decode_encode_steim1 (machine : ByteOrder) (x : Sample) (xs : List Sample) (swap : Bool) :
    (∀ plan : Plan, plan.Writes [⟨1, none, 4, 8⟩, ⟨2, none, 2, 16⟩, ⟨3, none, 1, 32⟩] x xs →
      (Codec.native machine).decode
          ⟨.steim1, encode (machine.ofSwap swap) plan x xs, (x :: xs).length, swap⟩ =
        ⟨[], .ok (x :: xs)⟩) ∧
    ∀ p ∈ [Packer.wide, Packer.narrow], ∃ plan : Plan,
      plan.Writes [⟨1, none, 4, 8⟩, ⟨2, none, 2, 16⟩, ⟨3, none, 1, 32⟩] x xs ∧
        p.encode (machine.ofSwap swap) (x :: xs) = encode (machine.ofSwap swap) plan x xs := by
  constructor
  · intro plan writes
    exact decode_encode (e := .steim1) writes (machine.ofSwap swap)
  · intro p _
    exact p.exists_encode_eq _ x xs

/-- A step that wraps around, a word without differences, and surplus differences at the end. -/
def wrappingStep : Plan where
  slots :=
    [.group ⟨2, none, 2, 16⟩ [9, 1], .skipped 7, .group ⟨3, none, 1, 32⟩ [-2147483643],
      .group ⟨1, none, 4, 8⟩ [-12, 3, 4, 5]]

theorem decode_encode_wrappingStep :
    wrappingStep.Writes [⟨1, none, 4, 8⟩, ⟨2, none, 2, 16⟩, ⟨3, none, 1, 32⟩]
        2147483647 [-2147483648, 5, -7] ∧
      (Codec.native .little).decode
          ⟨.steim1, encode .little wrappingStep 2147483647 [-2147483648, 5, -7], 4, false⟩ =
        ⟨[], .ok [2147483647, -2147483648, 5, -7]⟩ := by
  have writes : wrappingStep.Writes [⟨1, none, 4, 8⟩, ⟨2, none, 2, 16⟩, ⟨3, none, 1, 32⟩]
      2147483647 [-2147483648, 5, -7] := ⟨by decide, 9, [3, 4, 5], by decide⟩
  exact ⟨writes, (decode_encode_steim1 .little _ _ false).1 wrappingStep writes⟩

end Seismogram.Steim
