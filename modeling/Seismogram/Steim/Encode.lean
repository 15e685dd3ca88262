import Seismogram.Steim.Decode
import Seismogram.Steim.Packing

/-!
# Encoding samples into frames

The counterpart of decoding. A plan says which groups of differences, and which words without
any, make up the data words; they are laid into frames behind the two integration constants. How
the differences are grouped is left to the plan: every plan that writes the differences of the
samples is an encoding of them.
-/

namespace Seismogram.Steim

def deltas : List Sample → List Sample
  | x :: y :: rest => (y - x) :: deltas (y :: rest)
  | _ => []

@[simp] theorem length_deltas (x : Sample) (xs : List Sample) :
    (deltas (x :: xs)).length = xs.length := by
  induction xs generalizing x with
  | nil => rfl
  | cons y ys ih => simp [deltas, ih]

/-- Summing up the differences gives the samples back, also where a difference wraps around. -/
theorem integrate_deltas (x : Sample) (xs : List Sample) :
    integrate x (deltas (x :: xs)) = x :: xs := by
  induction xs generalizing x with
  | nil => rfl
  | cons y ys ih =>
    have step : x + (y - x) = y := by rw [Int32.add_comm, Int32.sub_add_cancel]
    simp [deltas, integrate, step, ih]

namespace Frame

/-- Fifteen words with their nibbles: the given ones, and zeros. -/
def fill (cs : List Cell) : List Cell :=
  cs ++ List.replicate (frameWords - 1 - cs.length) ⟨0, 0⟩

/-- The frame of fifteen words with their nibbles. The control word has a nibble of its own,
which says nothing. -/
def ofCells (own : Nat) (cs : List Cell) : Frame :=
  ⟨UInt32.ofNat (Word.join 2 (own :: cs.map Cell.nibble)), cs.map Cell.word⟩

/-- Words and their nibbles laid into as many frames as needed; `own k` is the nibble that the
control word of frame `k` has for itself. -/
def lay (own : Nat → Nat) : List Cell → List Frame
  | [] => []
  | c :: rest =>
    ofCells (own 0) (fill (c :: rest.take (frameWords - 2))) ::
      lay (fun k => own (k + 1)) (rest.drop (frameWords - 2))
termination_by cs => cs.length
decreasing_by
  simp only [List.length_drop, List.length_cons]
  omega

theorem length_fill {cs : List Cell} (len : cs.length ≤ frameWords - 1) :
    (fill cs).length = frameWords - 1 := by
  rw [fill, List.length_append, List.length_replicate]
  omega

theorem nibble_join (nibbles : List Nat) (len : nibbles.length = frameWords) (i : Nat)
    (hi : i < nibbles.length) :
    Word.nibble (UInt32.ofNat (Word.join 2 nibbles)) i = nibbles[i] % 4 := by
  have bound := Word.join_lt 2 nibbles
  rw [len] at bound
  have key := Word.getElem_join 2 0 nibbles i hi
  have place : 2 * (frameWords - 1 - i) = 30 - 2 * i := by rw [frameWords]; omega
  rw [Nat.zero_mul, Nat.zero_add, len, place] at key
  rw [Word.nibble, UInt32.toNat_ofNat_of_lt' (by rw [UInt32.size]; exact bound)]
  exact key

/-- A frame is read as the words it was made of, with what fits of their nibbles. -/
theorem cells_ofCells (own : Nat) {cs : List Cell} (len : cs.length = frameWords - 1) :
    (ofCells own cs).cells = cs.map Cell.clip := by
  have all : (own :: cs.map Cell.nibble).length = frameWords := by
    rw [List.length_cons, List.length_map, len, frameWords]
  apply List.ext_getElem (by simp [ofCells])
  intro i _ hi
  have key := nibble_join _ all (i + 1) (by
    rw [List.length_map] at hi
    rw [List.length_cons, List.length_map]
    omega)
  simp only [List.getElem_cons_succ, List.getElem_map] at key
  simp only [Frame.cells, ofCells, List.getElem_map, List.getElem_zipIdx, Nat.add_comm 1 i]
  rw [key, Cell.clip]

theorem full_lay (own : Nat → Nat) (cs : List Cell) :
    ∀ f ∈ lay own cs, f.body.length = frameWords - 1 := by
  fun_induction lay own cs with
  | case1 => simp
  | case2 own c rest ih =>
    intro f hf
    rcases List.mem_cons.1 hf with rfl | hf
    · rw [ofCells, List.length_map, length_fill]
      simp only [List.length_cons, List.length_take, frameWords]
      omega
    · exact ih f hf

/-- Frames are read as the words laid into them, and zeros up to the end of a frame. -/
theorem flatMap_cells_lay (own : Nat → Nat) (cs : List Cell) :
    ∃ k, (lay own cs).flatMap Frame.cells = cs.map Cell.clip ++ List.replicate k ⟨0, 0⟩ := by
  fun_induction lay own cs with
  | case1 => exact ⟨0, rfl⟩
  | case2 own c rest ih =>
    have part : (c :: rest.take (frameWords - 2)).length ≤ frameWords - 1 := by
      simp only [List.length_cons, List.length_take, frameWords]
      omega
    obtain ⟨k, hk⟩ := ih
    rw [List.flatMap_cons, cells_ofCells _ (length_fill part), hk, fill, List.map_append,
      List.map_replicate]
    by_cases short : rest.length ≤ frameWords - 2
    · rw [List.take_of_length_le short, List.drop_of_length_le short, List.map_nil,
        List.nil_append, List.append_assoc]
      exact ⟨_, congrArg _ List.replicate_append_replicate⟩
    · refine ⟨k, ?_⟩
      have none : frameWords - 1 - (c :: rest.take (frameWords - 2)).length = 0 := by
        simp only [List.length_cons, List.length_take, frameWords] at short ⊢
        omega
      rw [none, List.replicate_zero, List.append_nil, ← List.append_assoc, ← List.map_append,
        List.cons_append, List.take_append_drop]

end Frame

/-- The data words of a sequence of samples, and the nibbles that no decoder looks at: those of
the two integration constants and those of the control words themselves. -/
structure Plan where
  slots : List Slot
  constants : Nat × Nat := (0, 0)
  own : Nat → Nat := fun _ => 0

namespace Plan

def differences (plan : Plan) : List Sample := plan.slots.flatMap Slot.differences

/-- A plan writes the samples `x :: xs` in the layouts of a table if its groups are legal and
carry, after one difference that leads over from the record before, those of the samples;
surplus differences may follow. -/
def Writes (table : List Layout) (x : Sample) (xs : List Sample) (plan : Plan) : Prop :=
  (∀ slot ∈ plan.slots, slot.Legal table) ∧
    ∃ lead surplus, plan.differences = lead :: deltas (x :: xs) ++ surplus

/-- The words of the samples `x :: xs` with their nibbles: the first and the last sample as
integration constants, and the data words. -/
def cells (plan : Plan) (x : Sample) (xs : List Sample) : List Cell :=
  ⟨plan.constants.1, x.toUInt32⟩ ::
    ⟨plan.constants.2, ((x :: xs).getLast (List.cons_ne_nil x xs)).toUInt32⟩ ::
    plan.slots.map Slot.cell

end Plan

/-- The buffer that holds the samples `x :: xs` in a plan, its words stored in the given order. -/
def encode (order : ByteOrder) (plan : Plan) (x : Sample) (xs : List Sample) : List UInt8 :=
  Word.toBuffer order (Frame.toWords (Frame.lay plan.own (plan.cells x xs)))

end Seismogram.Steim
