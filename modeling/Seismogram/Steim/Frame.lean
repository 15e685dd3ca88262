import Seismogram.Steim.Layout

/-!
# Frames

Encoded samples come in frames of sixteen words: a control word, which holds one nibble for each
word of the frame, and fifteen words after it. In the first frame the first two of these fifteen
hold the forward and the reverse integration constant; every other one is a data word.
-/

namespace Seismogram.Steim

def frameWords : Nat := 16

def frameBytes : Nat := 64

/-- A control word and the words after it. -/
structure Frame where
  control : Word
  body : List Word
  deriving DecidableEq, Repr

namespace Frame

def ofWords : List Word → List Frame
  | [] => []
  | control :: rest =>
    ⟨control, rest.take (frameWords - 1)⟩ :: ofWords (rest.drop (frameWords - 1))
termination_by words => words.length
decreasing_by
  simp only [List.length_drop, List.length_cons]
  omega

def toWords (frames : List Frame) : List Word := frames.flatMap fun f => f.control :: f.body

/-- The words after the control word, each with its nibble. -/
def cells (f : Frame) : List Cell :=
  f.body.zipIdx 1 |>.map fun (word, index) => ⟨Word.nibble f.control index, word⟩

@[simp] theorem length_cells (f : Frame) : f.cells.length = f.body.length := by
  simp [cells]

theorem nibble_cells_lt (f : Frame) : ∀ c ∈ f.cells, c.nibble < 4 := by
  intro c hc
  obtain ⟨entry, -, rfl⟩ := List.mem_map.1 hc
  exact Word.nibble_lt ..

theorem length_toWords {frames : List Frame}
    (full : ∀ f ∈ frames, f.body.length = frameWords - 1) :
    (toWords frames).length = frameWords * frames.length := by
  induction frames with
  | nil => rfl
  | cons f rest ih =>
    have others := ih fun g hg => full g (List.mem_cons_of_mem f hg)
    rw [toWords, List.flatMap_cons, List.length_append, List.length_cons, full f List.mem_cons_self,
      ← toWords, others, List.length_cons]
    simp only [frameWords]
    omega

/-- Full frames come back from their words. -/
theorem ofWords_toWords (frames : List Frame)
    (full : ∀ f ∈ frames, f.body.length = frameWords - 1) :
    ofWords (toWords frames) = frames := by
  induction frames with
  | nil => simp [toWords, ofWords]
  | cons f fs ih =>
    have hf := full f (List.mem_cons_self ..)
    have hfs := ih fun g hg => full g (List.mem_cons_of_mem _ hg)
    simp only [toWords, List.flatMap_cons, List.cons_append, ofWords] at hfs ⊢
    rw [← hf, List.take_left, List.drop_left]
    exact congrArg _ hfs

theorem ofWords_eq_nil_iff {words : List Word} : ofWords words = [] ↔ words = [] := by
  cases words <;> simp [ofWords]

/-- The integration constants are the words after the first control word. -/
theorem constants_of_ofWords {words : List Word} {first : Frame} {rest : List Frame}
    (frames : ofWords words = first :: rest) :
    first.body.getD 0 0 = words.getD 1 0 ∧ first.body.getD 1 0 = words.getD 2 0 := by
  cases words with
  | nil => cases frames.symm.trans ofWords.eq_1
  | cons control more =>
    rw [ofWords, List.cons.injEq] at frames
    obtain ⟨rfl, -⟩ := frames
    rcases more with - | ⟨forward, - | ⟨reverse, more⟩⟩ <;> exact ⟨rfl, rfl⟩

/-- Words that can be cut into whole frames give full ones. -/
theorem full_of_ofWords {words : List Word} (whole : words.length % frameWords = 0) :
    ∀ f ∈ ofWords words, f.body.length = frameWords - 1 := by
  fun_induction ofWords words with
  | case1 => simp
  | case2 control rest ih =>
    simp only [frameWords, List.length_cons, List.length_drop] at whole ih ⊢
    rintro f (_ | ⟨_, later⟩)
    · rw [List.length_take]
      omega
    · exact ih (by omega) f later

end Frame

/-- The data words of a list of frames with their nibbles, frame by frame. -/
def dataCells : List Frame → List (List Cell)
  | [] => []
  | first :: rest => first.cells.drop 2 :: rest.map Frame.cells

theorem nibble_dataCells_lt (frames : List Frame) :
    ∀ c ∈ (dataCells frames).flatten, c.nibble < 4 := by
  intro c hc
  cases frames with
  | nil => simp [dataCells] at hc
  | cons first rest =>
    rw [dataCells, List.flatten_cons, List.mem_append] at hc
    rcases hc with hc | hc
    · exact first.nibble_cells_lt c (List.mem_of_mem_drop hc)
    · obtain ⟨cells, hcells, member⟩ := List.mem_flatten.1 hc
      obtain ⟨f, -, rfl⟩ := List.mem_map.1 hcells
      exact f.nibble_cells_lt c member

/-- The words after the two integration constants are data words in all frames alike. -/
theorem flatten_dataCells (first : Frame) (rest : List Frame) (room : 2 ≤ first.body.length) :
    (dataCells (first :: rest)).flatten = ((first :: rest).flatMap Frame.cells).drop 2 := by
  have inside : 2 ≤ first.cells.length := by rw [Frame.length_cells]; exact room
  rw [dataCells, List.flatten_cons, List.flatMap_cons, List.drop_append_of_le_length inside,
    List.flatMap_def]

end Seismogram.Steim
