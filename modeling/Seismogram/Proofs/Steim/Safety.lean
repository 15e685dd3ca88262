import Seismogram.Codec
import Seismogram.Proofs.Steim.Needed
import Seismogram.Proofs.Steim.Shifts

/-!
# Decoding is safe

A machine that decodes meets no trap, whatever the buffer, the declared count and the byte order
are, and it answers what the decoder answers. Control words are arbitrary, so this rests on the
sixteen words of a frame and on the widths of the layouts alone.

A declared count is no promise either. Frames are opened only while differences are missing, so
those held exceed the count by less than one frame, and a count beyond what all frames can hold
fails.
-/

namespace Seismogram.Steim

attribute [local instance (2000)] instPowNat

def mostInWord : Encoding → Nat
  | .steim1 => 4
  | .steim2 => 7

def mostInFirst : Encoding → Nat
  | .steim1 => 52
  | .steim2 => 91

def mostInFrame : Encoding → Nat
  | .steim1 => 60
  | .steim2 => 105

theorem mostInFirst_eq (e : Encoding) : mostInFirst e = mostInWord e * 13 := by cases e <;> rfl

theorem mostInFrame_eq (e : Encoding) : mostInFrame e = mostInWord e * 15 := by cases e <;> rfl

theorem mostInFrame_pos (e : Encoding) : 0 < mostInFrame e := by cases e <;> decide

theorem Cell.length_differences_le_mostInWord {e : Encoding} {c : Cell} {ds : List Sample}
    (found : c.differences e = .ok ds) : ds.length ≤ mostInWord e := by
  have table : ∀ layout ∈ layouts e, layout.count ≤ mostInWord e := by cases e <;> decide
  rw [Cell.differences] at found
  split at found
  · cases found
    exact Nat.zero_le _
  · split at found
    · next layout chosen =>
      cases found
      rw [Word.length_fields]
      exact table layout (List.mem_of_find?_eq_some chosen)
    · cases found

namespace Machine

/-- The differences found, or the fault, behind those held before. -/
def Gathered.onto (held : List Sample) : Except Fault (List Sample) → Gathered
  | .ok ds => ⟨held ++ ds, none⟩
  | .error fault => ⟨held, some fault⟩

/-- A data word is unpacked without a trap into the differences that it carries. Nibble and leading
bits are two bits each, so their combinations can be gone through. -/
theorem unpack_eq (e : Encoding) {c : Cell} (small : c.nibble < 4) (held : List Sample) :
    unpack e c.nibble c.word held = .ok (.onto held (c.differences e)) := by
  obtain ⟨leading, shifted, value⟩ := shiftRight_of_lt c.word (show 30 < 32 by decide)
  have selector : leading.toNat = c.word.selector := value
  have hw := c.word.selector_lt
  have selectors : c.word.selector = 0 ∨ c.word.selector = 1 ∨ c.word.selector = 2 ∨
      c.word.selector = 3 := by omega
  have nibbles : c.nibble = 0 ∨ c.nibble = 1 ∨ c.nibble = 2 ∨ c.nibble = 3 := by omega
  have packed {count bits : Nat} (pos : 1 ≤ bits) (short : bits < 32) (room : count * bits ≤ 32) :
      (pushPacked c.word count bits held >>= fun held => .ok (⟨held, none⟩ : Gathered)) =
        .ok ⟨held ++ c.word.fields count bits, none⟩ :=
    bind_of_ok (pushPacked_eq c.word pos short room held) _
  cases e with
  | steim1 =>
    rcases nibbles with hn | hn | hn | hn <;>
      simp [unpack, Cell.differences, Cell.layout?, layouts, Layout.fits, Gathered.onto, hn,
        pushBytes_eq, packed, fields_whole, pure, Except.pure]
  | steim2 =>
    rw [unpack, bind_of_ok shifted, selector]
    rcases nibbles with hn | hn | hn | hn <;> rcases selectors with hs | hs | hs | hs <;>
      simp [Cell.differences, Cell.layout?, layouts, Layout.fits, Gathered.onto, hn, hs,
        pushBytes_eq, packed, pure, Except.pure]

/-- Gathering that goes on from what is held finds what is expected behind it, and holds at most
`room` differences more, also where it ends in a fault. -/
structure Gathered.Finds (g : Gathered) (held : List Sample)
    (expected : Except Fault (List Sample)) (room : Nat) : Prop where
  result : g.result = expected.map fun ds => held ++ ds
  bound : g.held.length ≤ held.length + room

namespace Gathered.Finds

variable {g : Gathered} {held ds : List Sample} {room : Nat}

theorem of_error {fault : Fault} (finds : g.Finds held (.error fault) room) :
    g.result = .error fault := finds.result

theorem of_ok (finds : g.Finds held (.ok ds) room) :
    g.result = .ok (held ++ ds) ∧ g.held = held ++ ds := by
  have result : g.result = .ok (held ++ ds) := finds.result
  refine ⟨result, ?_⟩
  rw [Gathered.result] at result
  split at result
  · cases result
  · exact Except.ok.inj result

end Gathered.Finds

section Words

/-- The words of a frame from a number on, each with its nibble. -/
def cellsOf (control : Word) (index : Nat) (words : List Word) : List Cell :=
  (words.zipIdx index).map fun entry => ⟨Word.nibble control entry.2, entry.1⟩

theorem cellsOf_drop (f : Frame) (n : Nat) :
    cellsOf f.control (n + 1) (f.body.drop n) = f.cells.drop n := by
  apply List.ext_getElem (by simp [cellsOf])
  intro i _ _
  have number : n + 1 + i = 1 + (n + i) := by omega
  simp [cellsOf, Frame.cells, number]

/-- Words with numbers below sixteen are unpacked without a trap, one after another. -/
theorem exists_unpackWords_eq (e : Encoding) (control : Word) {index : Nat} {words : List Word}
    (inside : index + words.length ≤ 16) (held : List Sample) :
    ∃ g, unpackWords e control index words held = .ok g ∧
      g.Finds held (differences e (cellsOf control index words)) (mostInWord e * words.length) := by
  induction words generalizing index held with
  | nil =>
    refine ⟨⟨held, none⟩, rfl, ?_, Nat.le_add_right _ _⟩
    simp [Gathered.result, cellsOf, differences, Except.map]
  | cons w rest ih =>
    rw [List.length_cons] at inside ⊢
    obtain ⟨code, coded, value⟩ := nibble_eq control (show index < 16 by omega)
    have small : code.toNat < 4 := value ▸ Word.nibble_lt control index
    have here := unpack_eq e (c := ⟨code.toNat, w⟩) small held
    have cells : cellsOf control index (w :: rest) =
        ⟨code.toNat, w⟩ :: cellsOf control (index + 1) rest := by
      rw [value]
      rfl
    rw [unpackWords, bind_of_ok coded, bind_of_ok here, cells, differences]
    cases found : Cell.differences e ⟨code.toNat, w⟩ with
    | error fault => exact ⟨⟨held, some fault⟩, rfl, rfl, Nat.le_add_right _ _⟩
    | ok ds =>
      obtain ⟨g, run, result, bound⟩ := ih (show index + 1 + rest.length ≤ 16 by omega) (held ++ ds)
      have few := Cell.length_differences_le_mostInWord found
      refine ⟨g, run, ?_, ?_⟩
      · rw [result]
        cases differences e (cellsOf control (index + 1) rest) <;> simp [Except.map]
      · rw [List.length_append] at bound
        rw [Nat.mul_succ]
        omega

end Words

section Frames

/-- The data words of frames, the first of which has the given number. -/
def cellsFrom (number : Nat) (frames : List Frame) : List (List Cell) :=
  (frames.zipIdx number).map fun entry => entry.1.cells.drop (firstData entry.2 - 1)

theorem exists_firstData_eq (number : Nat) :
    ∃ skipped, firstData number = skipped + 1 ∧ skipped ≤ 2 := by
  rw [firstData]
  split
  · exact ⟨2, rfl, Nat.le_refl 2⟩
  · exact ⟨0, rfl, Nat.zero_le 2⟩

theorem cellsFrom_cons (number : Nat) (f : Frame) (rest : List Frame) :
    cellsFrom number (f :: rest) =
      f.cells.drop (firstData number - 1) :: cellsFrom (number + 1) rest := rfl

theorem cellsFrom_zero (frames : List Frame) : cellsFrom 0 frames = dataCells frames := by
  cases frames with
  | nil => rfl
  | cons first rest =>
    have later : cellsFrom 1 rest = rest.map Frame.cells := by
      apply List.ext_getElem (by simp [cellsFrom])
      intro i _ _
      simp [cellsFrom, firstData]
    rw [cellsFrom_cons, later]
    rfl

theorem frames_eq {words : List Word} (whole : words.length % frameWords = 0) :
    frames words = (Frame.ofWords words).map fun f => f.control :: f.body := by
  fun_induction Frame.ofWords words with
  | case1 => rfl
  | case2 control rest ih =>
    simp only [frameWords, List.length_cons, List.length_drop] at whole ih
    have count : (rest.length + 1) / 16 = (rest.length - 15) / 16 + 1 := by omega
    have later (k : Nat) :
        (control :: rest).drop (16 * (k + 1)) = (rest.drop 15).drop (16 * k) := by
      rw [List.drop_drop, show 16 * (k + 1) = 15 + 16 * k + 1 by omega, List.drop_succ_cons]
    rw [List.map_cons, frameWords, ← ih (by omega), frames, frames, List.length_cons,
      List.length_drop, frameWords, count, List.range_succ_eq_map, List.map_cons, List.map_map]
    simp only [Function.comp_def, Nat.succ_eq_add_one, later]
    rfl

/-- Frames are unpacked without a trap until enough is held. The last one is opened with fewer
differences held than wanted, so one frame bounds what is held beyond the count. -/
theorem exists_unpackFrames_eq (e : Encoding) (wanted : Nat) {fs : List Frame}
    (full : ∀ f ∈ fs, f.body.length = frameWords - 1) (number : Nat) (held : List Sample) :
    ∃ g, unpackFrames e wanted number (fs.map fun f => f.control :: f.body) held = .ok g ∧
      g.Finds held (gather e (wanted - held.length) (cellsFrom number fs))
        (mostInWord e * (cellsFrom number fs).flatten.length) ∧
      (held.length < wanted + mostInFrame e → g.held.length < wanted + mostInFrame e) := by
  induction fs generalizing number held with
  | nil =>
    refine ⟨⟨held, none⟩, rfl, ⟨?_, Nat.le_add_right _ _⟩, id⟩
    simp [Gathered.result, cellsFrom, gather, Except.map]
  | cons f rest ih =>
    have size : f.body.length = 15 := full f List.mem_cons_self
    rw [List.map_cons, unpackFrames]
    by_cases enough : wanted ≤ held.length
    · rw [if_pos enough, Nat.sub_eq_zero_of_le enough, gather_zero]
      refine ⟨⟨held, none⟩, rfl, ⟨?_, Nat.le_add_right _ _⟩, id⟩
      simp [Gathered.result, Except.map]
    obtain ⟨skipped, first, few⟩ := exists_firstData_eq number
    have words : (f.body.drop skipped).length = 15 - skipped := by rw [List.length_drop, size]
    have inside : skipped + 1 + (f.body.drop skipped).length ≤ 16 := by omega
    obtain ⟨here, run, finds⟩ := exists_unpackWords_eq e f.control inside held
    rw [cellsOf_drop] at finds
    have bound := finds.bound
    have room : mostInWord e * (f.body.drop skipped).length ≤ mostInFrame e := by
      rw [mostInFrame_eq, words]
      exact Nat.mul_le_mul_left _ (Nat.sub_le 15 skipped)
    have total : mostInWord e *
        (f.cells.drop skipped :: cellsFrom (number + 1) rest).flatten.length =
          mostInWord e * (f.body.drop skipped).length +
            mostInWord e * (cellsFrom (number + 1) rest).flatten.length := by
      simp [Nat.mul_add]
    have control : element (f.control :: f.body) 0 = .ok f.control := rfl
    rw [if_neg enough, bind_of_ok control, cellsFrom_cons, first, Nat.add_sub_cancel,
      List.drop_succ_cons, bind_of_ok run, gather_cons (by omega), total]
    cases found : differences e (f.cells.drop skipped) with
    | error fault =>
      rw [found] at finds
      rw [finds.of_error]
      exact ⟨here, rfl, ⟨finds.of_error, by omega⟩, fun _ => by omega⟩
    | ok ds =>
      rw [found] at finds
      obtain ⟨result, kept⟩ := finds.of_ok
      rw [kept, List.length_append] at bound
      obtain ⟨g, later, more, most⟩ :=
        ih (fun f hf => full f (List.mem_cons_of_mem _ hf)) (number + 1) (held ++ ds)
      have added := more.bound
      rw [List.length_append] at added most
      rw [result]
      refine ⟨g, later, ⟨?_, by omega⟩, fun _ => most (by omega)⟩
      rw [more.result, List.length_append, Except.bind, Nat.sub_sub]
      cases gather e (wanted - (held.length + ds.length)) (cellsFrom (number + 1) rest) <;>
        simp [Except.map]

end Frames

section Run

variable {e : Encoding} {buffer : List UInt8} {wanted : Nat} {first : Frame} {rest : List Frame}

/-- The check of the last sample needs the reverse constant alone. -/
theorem checkLast_constants (e : Encoding) (first : Frame) (rest : List Frame) (forward : Word)
    (decoded : List Sample) :
    checkLast e [⟨0, [forward, first.body.getD 1 0]⟩] decoded =
      checkLast e (first :: rest) decoded := by
  cases last : decoded.getLast? <;> simp [checkLast, last]

/-- What was gathered is answered without a trap, as the decoder answers it. -/
theorem conclude_eq (e : Encoding) (some : wanted ≠ 0) (first : Frame) (rest : List Frame) :
    conclude e wanted (first.body.getD 0 0) (first.body.getD 1 0)
        (gather e wanted (dataCells (first :: rest))) =
      .ok (match samples e wanted (first :: rest) with
        | .error fault => ⟨[], .error (.steim fault)⟩
        | .ok decoded => ⟨checkLast e (first :: rest) decoded, .ok decoded⟩) := by
  rw [samples]
  cases gather e wanted (dataCells (first :: rest)) with
  | error fault => rfl
  | ok ds =>
    rw [conclude]
    by_cases few : ds.length < wanted
    · simp only [if_pos few]
      rfl
    · have steps := part_of_le (Nat.one_le_iff_ne_zero.2 some) (Nat.le_of_not_lt few)
      simp only [if_neg few]
      rw [bind_of_ok steps, checkLast_constants]
      rfl

theorem exists_run_of_whole (e : Encoding) (order : ByteOrder) (some : wanted ≠ 0)
    (whole : buffer.length % frameBytes = 0) :
    ∃ run, decode e buffer wanted order = .ok run ∧
      run.answer = Steim.decode e buffer wanted order ∧
      run.held.length < wanted + mostInFrame e ∧ run.reserved ≤ 7 * (buffer.length / 4) := by
  have count := Word.length_ofBuffer order buffer
  rw [decode, if_neg some, if_neg (by simpa using whole), decode_of_whole e order some whole,
    ← count]
  rw [frameBytes] at whole
  generalize Word.ofBuffer order buffer = words at count
  have framed : words.length % frameWords = 0 := by
    rw [frameWords]
    omega
  have full := Frame.full_of_ofWords framed
  cases cut : Frame.ofWords words with
  | nil =>
    obtain rfl := Frame.ofWords_eq_nil_iff.1 cut
    refine ⟨_, rfl, rfl, ?_, Nat.zero_le _⟩
    show 0 < wanted + mostInFrame e
    omega
  | cons first rest =>
    have nonempty : words ≠ [] := by
      rintro rfl
      rw [Frame.ofWords] at cut
      cases cut
    have filled : words.isEmpty = false := by simp [nonempty]
    have size := List.length_pos_iff.2 nonempty
    rw [frameWords] at framed
    rw [cut] at full
    obtain ⟨g, gathered, finds, most⟩ := exists_unpackFrames_eq e wanted full 0 []
    rw [cellsFrom_zero, List.length_nil, Nat.sub_zero] at finds
    have result : g.result = gather e wanted (dataCells (first :: rest)) := by
      rw [finds.result]
      cases gather e wanted (dataCells (first :: rest)) <;> rfl
    obtain ⟨forward, reverse⟩ := Frame.constants_of_ofWords cut
    have concluded := conclude_eq e some first rest
    rw [← result, forward, reverse] at concluded
    rw [← cut, ← frames_eq (by rw [frameWords]; exact framed)] at gathered
    simp only [filled, Bool.false_eq_true, ↓reduceIte]
    rw [bind_of_ok (element_of_lt (by omega)), bind_of_ok (element_of_lt (by omega)),
      bind_of_ok gathered, bind_of_ok concluded]
    refine ⟨_, rfl, rfl, most ?_, ?_⟩
    · rw [List.length_nil]
      omega
    · show min wanted (words.length * 7) ≤ 7 * words.length
      omega

theorem exists_run (e : Encoding) (buffer : List UInt8) (wanted : Nat) (order : ByteOrder) :
    ∃ run, decode e buffer wanted order = .ok run ∧
      run.answer = Steim.decode e buffer wanted order ∧
      run.held.length < wanted + mostInFrame e ∧ run.reserved ≤ 7 * (buffer.length / 4) := by
  have pos : 0 < wanted + mostInFrame e := Nat.add_pos_right wanted (mostInFrame_pos e)
  by_cases none : wanted = 0
  · refine ⟨⟨0, [], ⟨[], .ok []⟩⟩, ?_, ?_, pos, Nat.zero_le _⟩
    · rw [decode, if_pos none]
      rfl
    · rw [none, decode_zero]
  by_cases whole : buffer.length % frameBytes = 0
  · exact exists_run_of_whole e order none whole
  · refine ⟨⟨0, [], ⟨[], .error (.bufferLength frameBytes buffer.length)⟩⟩, ?_, ?_, pos,
      Nat.zero_le _⟩
    · rw [decode, if_neg none, if_pos whole]
      rfl
    · rw [decode_of_partial e order none whole]

end Run
end Machine

section Bounds

variable {e : Encoding} {buffer : List UInt8} {wanted : Nat} {order : ByteOrder}

theorem Frame.length_flatten_cells {frames : List Frame}
    (full : ∀ f ∈ frames, f.body.length = frameWords - 1) :
    (frames.map Frame.cells).flatten.length = 15 * frames.length := by
  induction frames with
  | nil => rfl
  | cons f rest ih =>
    have here : f.body.length = 15 := full f List.mem_cons_self
    have later := ih fun g hg => full g (List.mem_cons_of_mem f hg)
    rw [List.map_cons, List.flatten_cons, List.length_append, Frame.length_cells, here, later,
      List.length_cons]
    omega

/-- No more differences are gathered than the data words of all frames can hold. -/
theorem length_gather_le {first : Frame} {rest : List Frame} {ds : List Sample}
    (full : ∀ f ∈ first :: rest, f.body.length = frameWords - 1)
    (gathered : gather e wanted (dataCells (first :: rest)) = .ok ds) :
    ds.length ≤ mostInFirst e + mostInFrame e * rest.length := by
  obtain ⟨g, -, finds, -⟩ := Machine.exists_unpackFrames_eq e wanted full 0 []
  rw [Machine.cellsFrom_zero, List.length_nil, Nat.sub_zero, gathered] at finds
  have here : first.body.length = 15 := full first List.mem_cons_self
  have others := Frame.length_flatten_cells fun f hf => full f (List.mem_cons_of_mem first hf)
  have bound := finds.bound
  rw [finds.of_ok.2, List.nil_append, dataCells, List.flatten_cons, List.length_append,
    List.length_drop, Frame.length_cells, here, others, Nat.mul_add, ← Nat.mul_assoc,
    ← mostInFirst_eq, ← mostInFrame_eq] at bound
  simpa using bound

theorem wanted_le_of_decode {decoded : List Sample} {more : Nat}
    (size : buffer.length = 64 * (more + 1))
    (found : (decode e buffer wanted order).samples = .ok decoded) :
    wanted ≤ mostInFirst e + mostInFrame e * more := by
  by_cases none : wanted = 0
  · rw [none]
    exact Nat.zero_le _
  obtain ⟨-, first, rest, cut, read⟩ := exists_frames_of_decode none found
  obtain ⟨ds, gathered, enough, -⟩ := samples_eq_ok_iff.1 read
  have words := Word.length_ofBuffer order buffer
  have framed : (Word.ofBuffer order buffer).length % frameWords = 0 := by
    rw [frameWords]
    omega
  have full := Frame.full_of_ofWords framed
  rw [cut] at full
  have frames := congrArg List.length cut
  rw [frameWords] at framed
  rw [Frame.ofWords_eq _ framed, List.length_map, List.length_range, List.length_cons] at frames
  obtain rfl : more = rest.length := by omega
  exact Nat.le_trans enough (length_gather_le full gathered)

end Bounds

/-- An untrusted count can do no harm, for every encoding, buffer, count and swap flag. A machine
carries the decoding out without a trap and answers the same; at no time does it hold as many
differences as one frame beyond the count, and it reserves room for seven to each word of the buffer
at most, whatever the count. A count beyond what the frames of a buffer can hold is always an
error. -/
theorem decode_neverTraps (machine : ByteOrder) (e : Encoding) (buffer : List UInt8) (wanted : Nat)
    (swap : Bool) :
    (∃ run, Machine.decode e buffer wanted (machine.ofSwap swap) = .ok run ∧
      run.answer = (Codec.native machine).decode ⟨e, buffer, wanted, swap⟩ ∧
      run.held.length < wanted + mostInFrame e ∧ run.reserved ≤ 7 * (buffer.length / 4)) ∧
    ∀ more, buffer.length = 64 * (more + 1) → mostInFirst e + mostInFrame e * more < wanted →
      ∃ failure,
        ((Codec.native machine).decode ⟨e, buffer, wanted, swap⟩).samples = .error failure := by
  refine ⟨Machine.exists_run e buffer wanted _, ?_⟩
  intro more size beyond
  cases answer : ((Codec.native machine).decode ⟨e, buffer, wanted, swap⟩).samples with
  | error failure => exact ⟨failure, rfl⟩
  | ok decoded => exact absurd (wanted_le_of_decode size answer) (Nat.not_le_of_lt beyond)

/-- One frame whose data words hold four bytes each. -/
def fullFrame : List UInt8 := [1, 85, 85, 85] ++ List.replicate 60 0

/-- A full frame holds 52 samples and not one more; the largest count is no different. -/
theorem decode_neverTraps_fullFrame :
    let decoded (wanted : Nat) :=
      ((Codec.native .little).decode ⟨.steim1, fullFrame, wanted, true⟩).samples
    decoded 52 = .ok (List.replicate 52 0) ∧ (∃ failure, decoded 53 = .error failure) ∧
      ∃ failure, decoded 18446744073709551615 = .error failure := by
  refine ⟨?_, ?_, ?_⟩
  · show (decode .steim1 fullFrame 52 .big).samples = _
    rw [samples_decode _ _ (by decide) (by decide), Frame.ofWords_eq _ (by decide)]
    rfl
  · exact (decode_neverTraps .little .steim1 fullFrame 53 true).2 0 (by decide) (by decide)
  · exact (decode_neverTraps .little .steim1 fullFrame _ true).2 0 (by decide) (by decide)

end Seismogram.Steim
