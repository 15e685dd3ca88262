import Seismogram.Steim.Encode

/-!
# Encoders that fill frame after frame

Two encoders for the first encoding, which make up data for tests and for benchmarks. Both write
the differences that wait into the data words of one frame after another, until none is left.
They differ in what goes into the next word: always one difference, or four of them where the
next four fit into bytes. What they write is an encoding in a plan (`Packer.exists_encode_eq`).
-/

namespace Seismogram.Steim

attribute [local instance (2000)] instPowNat

/-- One difference in a word. -/
def wideCell (d : Sample) : Cell := ⟨3, d.toUInt32⟩

/-- Differences of a byte each in a word, one shifted in after another. -/
def byteCell (ds : List Sample) : Cell :=
  ⟨1, UInt32.ofNat (ds.foldl (fun word d => word * 256 + (d.toInt % 256).toNat) 0)⟩

def fitsByte (d : Sample) : Bool := decide (-128 ≤ d.toInt ∧ d.toInt ≤ 127)

theorem toNat_toUInt32 (d : Sample) : d.toUInt32.toNat = Word.unsigned 32 d := by
  have key : d.toInt = Int.bmod d.toUInt32.toNat (2 ^ 32) := BitVec.toInt_eq_toNat_bmod d.toBitVec
  have small := d.toUInt32.toNat_lt
  have modulus : (2 : Int) ^ 32 = (2 ^ 32 : Nat) := rfl
  rw [Word.unsigned, key, modulus, Int.bmod_emod]
  omega

theorem legal_wide (d : Sample) : (Slot.group ⟨3, none, 1, 32⟩ [d]).Legal (layouts .steim1) := by
  refine ⟨by decide, rfl, ?_⟩
  intro a ha
  rw [List.mem_singleton.1 ha]
  exact ⟨d.le_toInt, d.toInt_lt⟩

theorem cell_wide (d : Sample) : (Slot.group ⟨3, none, 1, 32⟩ [d]).cell = wideCell d := by
  have word : Layout.pack ⟨3, none, 1, 32⟩ [d] = d.toUInt32 := by
    have small := Word.unsigned_lt 32 d
    rw [← UInt32.toNat_inj, Layout.toNat_pack (e := .steim1) (by decide) rfl, toNat_toUInt32]
    simp [Word.join, Nat.mod_eq_of_lt small]
  rw [Slot.cell, word, wideCell]

theorem legal_bytes {ds : List Sample} (four : ds.length = 4) (fit : ds.all fitsByte) :
    (Slot.group ⟨1, none, 4, 8⟩ ds).Legal (layouts .steim1) := by
  refine ⟨by decide, four, ?_⟩
  intro d hd
  have small : -128 ≤ d.toInt ∧ d.toInt ≤ 127 := of_decide_eq_true (List.all_eq_true.1 fit d hd)
  exact ⟨small.1, Int.lt_of_le_sub_one small.2⟩

theorem cell_bytes {ds : List Sample} (four : ds.length = 4) :
    (Slot.group ⟨1, none, 4, 8⟩ ds).cell = byteCell ds := by
  match ds, four with
  | [a, b, c, d], _ =>
    have digits : ∀ v : Sample, Word.unsigned 8 v % 2 ^ 8 = (v.toInt % 256).toNat := by
      intro v
      exact Nat.mod_eq_of_lt (Word.unsigned_lt 8 v)
    have sum : Word.join 8 ([a, b, c, d].map (Word.unsigned 8)) =
        [a, b, c, d].foldl (fun word v => word * 256 + (v.toInt % 256).toNat) 0 := by
      simp only [List.map, List.foldl, Word.join, List.length, digits]
      omega
    rw [Slot.cell, Layout.pack, sum, byteCell, Option.getD_none, Nat.zero_mul, Nat.zero_add]

/-- How the next data word is made of a difference and of those that wait behind it; what is
left waits on. The word is a legal one for the differences taken. -/
structure Packer where
  next : Sample → List Sample → Cell × List Sample
  shrinks : ∀ d rest, (next d rest).2.length ≤ rest.length
  writes : ∀ d rest, ∃ slot : Slot, slot.Legal (layouts .steim1) ∧ slot.cell = (next d rest).1 ∧
    slot.differences ++ (next d rest).2 = d :: rest

namespace Packer

/-- One difference in every word. -/
def wide : Packer where
  next d rest := (wideCell d, rest)
  shrinks _ _ := Nat.le_refl _
  writes d _ := ⟨.group ⟨3, none, 1, 32⟩ [d], legal_wide d, cell_wide d, rfl⟩

/-- Whether the next four differences fit into bytes. -/
def fourBytes (d : Sample) (rest : List Sample) : Bool :=
  decide ((d :: rest.take 3).length = 4) && (d :: rest.take 3).all fitsByte

/-- Four differences in a word where they fit into bytes, and one otherwise. -/
def narrow : Packer where
  next d rest :=
    if fourBytes d rest then (byteCell (d :: rest.take 3), rest.drop 3) else (wideCell d, rest)
  shrinks d rest := by
    split
    · simp
    · exact Nat.le_refl _
  writes d rest := by
    by_cases bytes : fourBytes d rest
    · obtain ⟨four, fit⟩ := (Bool.and_eq_true ..).mp bytes
      have four := of_decide_eq_true four
      rw [if_pos bytes]
      exact ⟨.group ⟨1, none, 4, 8⟩ (d :: rest.take 3), legal_bytes four fit, cell_bytes four,
        congrArg (d :: ·) (List.take_append_drop 3 rest)⟩
    · rw [if_neg bytes]
      exact ⟨.group ⟨3, none, 1, 32⟩ [d], legal_wide d, cell_wide d, rfl⟩

/-- The words for at most `room` places of a frame, and the differences that still wait. -/
def fill (p : Packer) : (room : Nat) → (waiting : List Sample) → List Cell × List Sample
  | 0, waiting => ([], waiting)
  | _, [] => ([], [])
  | room + 1, d :: rest =>
    let word := p.next d rest
    let others := p.fill room word.2
    (word.1 :: others.1, others.2)

theorem length_fill_le (p : Packer) (room : Nat) (waiting : List Sample) :
    (p.fill room waiting).2.length ≤ waiting.length := by
  fun_induction fill p room waiting with
  | case1 => exact Nat.le_refl _
  | case2 => exact Nat.le_refl _
  | case3 room d rest word others ih =>
    exact Nat.le_succ_of_le (Nat.le_trans ih (p.shrinks d rest))

/-- The frames after the first, as many as the waiting differences need. -/
def laterFrames (p : Packer) : List Sample → List Frame
  | [] => []
  | d :: rest =>
    let filled := p.fill (frameWords - 1) (d :: rest)
    Frame.ofCells 0 (Frame.fill filled.1) :: p.laterFrames filled.2
termination_by waiting => waiting.length
decreasing_by
  have step : (p.fill (frameWords - 1) (d :: rest)).2.length ≤ (p.next d rest).2.length :=
    p.length_fill_le (frameWords - 2) (p.next d rest).2
  exact Nat.lt_succ_of_le (Nat.le_trans step (p.shrinks d rest))

/-- The buffer of a list of samples. The first difference is zero, and the first frame begins
with the two integration constants. -/
def encode (p : Packer) (order : ByteOrder) : List Sample → List UInt8
  | [] => []
  | x :: xs =>
    let filled := p.fill (frameWords - 3) (0 :: deltas (x :: xs))
    let constants : List Cell :=
      [⟨0, x.toUInt32⟩, ⟨0, ((x :: xs).getLast (List.cons_ne_nil x xs)).toUInt32⟩]
    let first := Frame.ofCells 0 (Frame.fill (constants ++ filled.1))
    Word.toBuffer order (Frame.toWords (first :: p.laterFrames filled.2))

def cells (p : Packer) : List Sample → List Cell
  | [] => []
  | d :: rest => (p.next d rest).1 :: p.cells (p.next d rest).2
termination_by waiting => waiting.length
decreasing_by exact Nat.lt_succ_of_le (p.shrinks d rest)

/-- Words are the same wherever a frame ends. -/
theorem cells_fill (p : Packer) (room : Nat) (waiting : List Sample) :
    (p.fill room waiting).1 = (p.cells waiting).take room ∧
      p.cells (p.fill room waiting).2 = (p.cells waiting).drop room := by
  fun_induction fill p room waiting with
  | case1 waiting => exact ⟨rfl, rfl⟩
  | case2 room _ => simp [cells]
  | case3 room d rest word others ih =>
    rw [cells, List.take_succ_cons, List.drop_succ_cons]
    exact ⟨congrArg _ ih.1, ih.2⟩

theorem laterFrames_eq_lay (p : Packer) (waiting : List Sample) :
    p.laterFrames waiting = Frame.lay (fun _ => 0) (p.cells waiting) := by
  fun_induction laterFrames p waiting with
  | case1 => rw [cells, Frame.lay]
  | case2 d rest filled ih =>
    obtain ⟨words, left⟩ := p.cells_fill (frameWords - 1) (d :: rest)
    rw [ih, left, cells, Frame.lay, show filled.1 = _ from words, cells]
    rfl

/-- The words of the waiting differences are legal ones that carry just these. -/
theorem exists_slots (p : Packer) (waiting : List Sample) :
    ∃ slots : List Slot, (∀ slot ∈ slots, slot.Legal (layouts .steim1)) ∧
      slots.map Slot.cell = p.cells waiting ∧ slots.flatMap Slot.differences = waiting := by
  fun_induction cells p waiting with
  | case1 => exact ⟨[], by simp, rfl, rfl⟩
  | case2 d rest ih =>
    obtain ⟨slot, legal, cell, carried⟩ := p.writes d rest
    obtain ⟨slots, legals, words, others⟩ := ih
    refine ⟨slot :: slots, ?_, ?_, ?_⟩
    · intro s hs
      rcases List.mem_cons.1 hs with rfl | hs
      · exact legal
      · exact legals s hs
    · rw [List.map_cons, cell, words]
    · rw [List.flatMap_cons, others, carried]

/-- What a packer encodes is an encoding in a plan. -/
theorem exists_encode_eq (p : Packer) (order : ByteOrder) (x : Sample) (xs : List Sample) :
    ∃ plan : Plan, plan.Writes (layouts .steim1) x xs ∧
      p.encode order (x :: xs) = Steim.encode order plan x xs := by
  obtain ⟨slots, legal, words, carried⟩ := p.exists_slots (0 :: deltas (x :: xs))
  refine ⟨⟨slots, (0, 0), fun _ => 0⟩, ⟨legal, 0, [], ?_⟩, ?_⟩
  · rw [List.append_nil]
    exact carried
  · obtain ⟨filled, left⟩ := p.cells_fill (frameWords - 3) (0 :: deltas (x :: xs))
    rw [encode, Steim.encode, Plan.cells, words, laterFrames_eq_lay, left, filled, Frame.lay]
    rfl

end Packer
end Seismogram.Steim
