import Seismogram.Proofs.Steim.Needed

/-!
# What decoding does not look at

Two buffers decode alike when they agree on what is read: on the forward integration constant, and,
in the frames that are needed, on the nibbles of the data words and on the bits of those that hold
fields. Everything else may differ. The very first field is among what is not read, because the
first sample is given and its difference only counted.

Both runs are followed word by word. What counts of the differences behind `held` others is their
number and all of them but the very first (`settled`); equal words keep that equal, and so do words
that differ in idle bits only.
-/

namespace Seismogram.Steim

attribute [local instance (2000)] instPowNat Zero.ofOfNat0

/-- Bits that a layout has no use for: those between its fields and the two leading bits, and, if
its first field is `dropped`, the bits of that field. -/
def Layout.Idle (layout : Layout) (dropped : Prop) (bit : Nat) : Prop :=
  layout.bits * layout.count ≤ bit ∧ bit < 30 ∨
    dropped ∧ layout.bits * (layout.count - 1) ≤ bit ∧ bit < layout.bits * layout.count

/-- Two data words of one nibble that agree on all bits but the idle ones. A word of nibble zero has
no other. -/
structure Cell.Alike (e : Encoding) (dropped : Prop) (c c' : Cell) : Prop where
  nibble : c.nibble = c'.nibble
  bits : c.nibble ≠ 0 → ∀ bit < 32, (∀ layout ∈ c.layout? e, ¬ layout.Idle dropped bit) →
    c.word.toNat.testBit bit = c'.word.toNat.testBit bit

instance (layout : Layout) (dropped : Prop) [Decidable dropped] (bit : Nat) :
    Decidable (layout.Idle dropped bit) :=
  inferInstanceAs (Decidable (_ ∧ _ ∨ dropped ∧ _ ∧ _))

instance (e : Encoding) (dropped : Prop) [Decidable dropped] (c c' : Cell) :
    Decidable (c.Alike e dropped c') :=
  decidable_of_iff
    (c.nibble = c'.nibble ∧ (c.nibble ≠ 0 → ∀ bit < 32,
      (∀ layout ∈ c.layout? e, ¬ layout.Idle dropped bit) →
        c.word.toNat.testBit bit = c'.word.toNat.testBit bit))
    ⟨fun ⟨nibble, bits⟩ => ⟨nibble, bits⟩, fun alike => ⟨alike.nibble, alike.bits⟩⟩

/-- Whether a word number is that of a data word: neither a control word nor one of the two
integration constants. -/
def IsData (m : Nat) : Prop := m % 16 ≠ 0 ∧ m ≠ 1 ∧ m ≠ 2

instance (m : Nat) : Decidable (IsData m) :=
  inferInstanceAs (Decidable (m % 16 ≠ 0 ∧ m ≠ 1 ∧ m ≠ 2))

def cellAt (words : List Word) (m : Nat) : Cell :=
  ⟨Word.nibble (words.getD (16 * (m / 16)) 0) (m % 16), words.getD m 0⟩

/-- The data words among `count` words from a number on. -/
def cellsFrom (words : List Word) (start count : Nat) : List Cell :=
  ((List.range' start count).filter fun m => IsData m).map (cellAt words)

/-- How many fields the data words before word `m` hold. -/
def fieldsBefore (e : Encoding) (words : List Word) (m : Nat) : Nat :=
  ((cellsFrom words 0 m).flatMap (Cell.integers e)).length

/-- Two lists of words that agree on what is needed for `wanted` samples. Of the data words only
those in frames before which fewer fields are held count. -/
structure Alike (e : Encoding) (wanted : Nat) (words words' : List Word) : Prop where
  forward : words.getD 1 0 = words'.getD 1 0
  data : ∀ m < words.length, IsData m → fieldsBefore e words (16 * (m / 16)) < wanted →
    (cellAt words m).Alike e (fieldsBefore e words m = 0) (cellAt words' m)

instance (e : Encoding) (wanted : Nat) (words words' : List Word) :
    Decidable (Alike e wanted words words') :=
  decidable_of_iff
    (words.getD 1 0 = words'.getD 1 0 ∧
      ∀ m < words.length, IsData m → fieldsBefore e words (16 * (m / 16)) < wanted →
        (cellAt words m).Alike e (fieldsBefore e words m = 0) (cellAt words' m))
    ⟨fun ⟨forward, data⟩ => ⟨forward, data⟩, fun alike => ⟨alike.forward, alike.data⟩⟩

section Words

variable {w w' : Word} {bits : Nat}

theorem Word.field_congr {k : Nat}
    (agree : ∀ bit, bits * k ≤ bit → bit < bits * (k + 1) →
      w.toNat.testBit bit = w'.toNat.testBit bit) :
    w.field bits k = w'.field bits k := by
  apply Nat.eq_of_testBit_eq
  intro i
  rw [field, field, Nat.testBit_mod_two_pow, Nat.testBit_mod_two_pow, Nat.testBit_div_two_pow,
    Nat.testBit_div_two_pow]
  by_cases inside : i < bits
  · rw [agree (i + bits * k) (by omega) (by rw [Nat.mul_succ]; omega)]
  · simp [inside]

/-- All fields but the first few depend on the bits below these. -/
theorem Word.drop_fields_congr {count n : Nat}
    (agree : ∀ bit < bits * (count - n), w.toNat.testBit bit = w'.toNat.testBit bit) :
    (w.fields count bits).drop n = (w'.fields count bits).drop n := by
  apply List.ext_getElem (by simp)
  intro i hi _
  rw [List.length_drop, length_fields] at hi
  simp only [fields, List.getElem_drop, List.getElem_map, List.getElem_range]
  rw [Word.field_congr]
  intro bit _ below
  apply agree
  calc bit < bits * (count - 1 - (n + i) + 1) := below
    _ ≤ bits * (count - n) := Nat.mul_le_mul_left bits (by omega)

theorem Word.selector_congr (low : w.toNat.testBit 30 = w'.toNat.testBit 30)
    (high : w.toNat.testBit 31 = w'.toNat.testBit 31) : w.selector = w'.selector := by
  have weight : selectorWeight = 2 ^ 30 := rfl
  apply Nat.eq_of_testBit_eq
  intro i
  rw [selector, selector, weight, Nat.testBit_div_two_pow, Nat.testBit_div_two_pow]
  by_cases inside : i < 2
  · obtain rfl | rfl : i = 0 ∨ i = 1 := by omega
    · exact low
    · exact high
  · have beyond (v : Word) : v.toNat < 2 ^ (i + 30) :=
      Nat.lt_of_lt_of_le v.toNat_lt (Nat.pow_le_pow_right (by decide) (by omega))
    rw [Nat.testBit_lt_two_pow (beyond w), Nat.testBit_lt_two_pow (beyond w')]

end Words

section Cells

variable {e : Encoding} {dropped : Prop} {c c' : Cell}

/-- A layout without leading bits is the only one of its nibble. -/
theorem eq_of_selector_eq_none {layout other : Layout} (known : layout ∈ layouts e)
    (free : layout.selector = none) (listed : other ∈ layouts e)
    (nibble : other.nibble = layout.nibble) : other = layout := by
  have table : ∀ l ∈ layouts e, l.selector = none →
      ∀ o ∈ layouts e, o.nibble = l.nibble → o = l := by
    cases e <;> decide
  exact table layout known free other listed nibble

/-- Fields beside leading bits leave these alone. -/
theorem bits_mul_count_le {layout : Layout} (known : layout ∈ layouts e)
    (selected : layout.selector ≠ none) : layout.bits * layout.count ≤ 30 := by
  have table : ∀ l ∈ layouts e, l.selector ≠ none → l.bits * l.count ≤ 30 := by
    cases e <;> decide
  exact table layout known selected

theorem Cell.layout?_congr (fits : ∀ layout ∈ layouts e, layout.fits c = layout.fits c') :
    c.layout? e = c'.layout? e := by
  rw [Cell.layout?, Cell.layout?, ← List.head?_filter, ← List.head?_filter, List.filter_congr fits]

/-- Words that agree but for idle bits are written in one layout, since the leading bits of a word
are idle only where its nibble leaves no choice. -/
theorem Cell.Alike.layout?_eq (alike : c.Alike e dropped c') (some : c.nibble ≠ 0) :
    c.layout? e = c'.layout? e := by
  have sameNibble := alike.nibble
  apply Cell.layout?_congr
  intro layout listed
  by_cases free : ∃ chosen ∈ c.layout? e, chosen.selector = none
  · obtain ⟨chosen, found, unselected⟩ := free
    have known : chosen ∈ layouts e := List.mem_of_find?_eq_some found
    have fit : chosen.nibble = c.nibble := by
      have := List.find?_some found
      simp only [Layout.fits, Bool.and_eq_true, decide_eq_true_eq] at this
      exact this.1
    by_cases own : layout.nibble = c.nibble
    · obtain rfl := eq_of_selector_eq_none known unselected listed (own.trans fit.symm)
      simp [Layout.fits, unselected, sameNibble]
    · simp [Layout.fits, own, ← sameNibble]
  · have leading : ∀ bit, 30 ≤ bit → ∀ chosen ∈ c.layout? e, ¬ chosen.Idle dropped bit := by
      intro bit high chosen found idle
      have below := bits_mul_count_le (List.mem_of_find?_eq_some found)
        fun unselected => free ⟨chosen, found, unselected⟩
      rw [Layout.Idle] at idle
      omega
    have selector := Word.selector_congr (alike.bits some 30 (by decide) (leading 30 (by decide)))
      (alike.bits some 31 (by decide) (leading 31 (by decide)))
    rw [Layout.fits, Layout.fits, sameNibble, selector]

end Cells

/-- What counts of the differences behind `held` others: how many they are, and all of them but the
very first. -/
def settled (held : Nat) (found : Except Fault (List Sample)) :
    Except Fault (Nat × List Sample) :=
  found.map fun ds => (ds.length, ds.drop (1 - held))

section Settled

variable {e : Encoding} {held : Nat}

/-- Two runs that have settled the same go on from the same number of differences, so what they
find later only has to settle the same behind that many. -/
theorem settled_bind {found found' : Except Fault (List Sample)}
    (later later' : Nat → Except Fault (List Sample))
    (front : settled held found = settled held found')
    (back : ∀ ds, found = .ok ds →
      settled (held + ds.length) (later ds.length) =
        settled (held + ds.length) (later' ds.length)) :
    settled held (found.bind fun ds => (later ds.length).map fun more => ds ++ more) =
      settled held (found'.bind fun ds => (later' ds.length).map fun more => ds ++ more) := by
  have split (found : Except Fault (List Sample)) (later : Nat → Except Fault (List Sample)) :
      settled held (found.bind fun ds => (later ds.length).map fun more => ds ++ more) =
        (settled held found).bind fun front =>
          (settled (held + front.1) (later front.1)).map fun back =>
            (front.1 + back.1, front.2 ++ back.2) := by
    cases found with
    | error fault => rfl
    | ok ds =>
      simp only [settled, Except.bind, Except.map]
      cases later ds.length with
      | error fault => rfl
      | ok more =>
        have rest : 1 - held - ds.length = 1 - (held + ds.length) := by omega
        simp only [List.length_append, List.drop_append, rest]
  rw [split, split, ← front]
  cases found with
  | error fault => rfl
  | ok ds =>
    simp only [settled, Except.bind, Except.map] at back ⊢
    rw [back ds rfl]

theorem differences_append (front back : List Cell) :
    differences e (front ++ back) =
      (differences e front).bind fun ds => (differences e back).map fun more => ds ++ more := by
  induction front with
  | nil =>
    rw [List.nil_append]
    cases differences e back <;> rfl
  | cons c rest ih =>
    rw [List.cons_append, differences, ih, differences]
    cases c.differences e with
    | error fault => rfl
    | ok ds =>
      dsimp only
      cases differences e rest with
      | error fault => rfl
      | ok more =>
        simp only [Except.bind]
        cases differences e back with
        | error fault => rfl
        | ok last => simp [Except.map]

theorem settled_differences {c c' : Cell} (alike : c.Alike e (held = 0) c') :
    settled held (c.differences e) = settled held (c'.differences e) := by
  have sameNibble := alike.nibble
  by_cases none : c.nibble = 0
  · rw [Cell.differences, Cell.differences, if_pos none, if_pos (sameNibble ▸ none)]
  have sameLayout := alike.layout?_eq none
  rw [Cell.differences, Cell.differences, if_neg none, if_neg (sameNibble ▸ none), ← sameLayout]
  cases chosen : c.layout? e with
  | none =>
    have all : ∀ bit < 32, c.word.toNat.testBit bit = c'.word.toNat.testBit bit := by
      intro bit inside
      apply alike.bits none bit inside
      simp [chosen]
    rw [sameNibble, Word.selector_congr (all 30 (by decide)) (all 31 (by decide))]
  | some layout =>
    obtain ⟨-, -, -, -, -, room⟩ := layout_bounds e layout (List.mem_of_find?_eq_some chosen)
    rw [Nat.mul_comm] at room
    have fields : (c.word.fields layout.count layout.bits).drop (1 - held) =
        (c'.word.fields layout.count layout.bits).drop (1 - held) := by
      apply Word.drop_fields_congr
      intro bit below
      have whole : layout.bits * (layout.count - (1 - held)) ≤ layout.bits * layout.count :=
        Nat.mul_le_mul_left _ (Nat.sub_le _ _)
      apply alike.bits none bit (by omega)
      intro found same
      obtain rfl : layout = found := Option.some.inj (chosen.symm.trans same)
      rintro (⟨above, -⟩ | ⟨dropped, inside, -⟩)
      · omega
      · rw [dropped] at below
        exact absurd below (Nat.not_lt.2 inside)
    simp only [settled, Except.map, Word.length_fields, fields]

end Settled

section Following

variable {e : Encoding} {words words' : List Word} {wanted held : Nat}

theorem nibble_cellsFrom_lt (words : List Word) (start count : Nat) :
    ∀ c ∈ cellsFrom words start count, c.nibble < 4 := by
  intro c hc
  obtain ⟨m, -, rfl⟩ := List.mem_map.1 hc
  exact Word.nibble_lt ..

theorem cellsFrom_append (words : List Word) (start front back : Nat) :
    cellsFrom words start (front + back) =
      cellsFrom words start front ++ cellsFrom words (start + front) back := by
  rw [cellsFrom, ← List.range'_append_1, List.filter_append, List.map_append, ← cellsFrom,
    ← cellsFrom]

theorem fieldsBefore_add {start count : Nat} {ds : List Sample}
    (read : differences e (cellsFrom words start count) = .ok ds) :
    fieldsBefore e words (start + count) = fieldsBefore e words start + ds.length := by
  rw [differences_eq_reading (nibble_cellsFrom_lt words start count), reading_eq_ok_iff] at read
  obtain ⟨-, rfl⟩ := read
  rw [fieldsBefore, cellsFrom_append, Nat.zero_add, List.flatMap_append, List.length_append,
    List.length_map, ← fieldsBefore]

theorem settled_differences_cellAt {m : Nat}
    (alike : IsData m → (cellAt words m).Alike e (held = 0) (cellAt words' m)) :
    settled held (differences e (cellsFrom words m 1)) =
      settled held (differences e (cellsFrom words' m 1)) := by
  by_cases data : IsData m
  · have one (words : List Word) :
        differences e (cellsFrom words m 1) = (cellAt words m).differences e := by
      have cell : cellsFrom words m 1 = [cellAt words m] := by simp [cellsFrom, data]
      rw [differences_eq_reading (nibble_cellsFrom_lt words m 1), cell,
        reading_singleton (Word.nibble_lt ..)]
    rw [one, one]
    exact settled_differences (alike data)
  · have none (words : List Word) : cellsFrom words m 1 = [] := by simp [cellsFrom, data]
    rw [none, none]

/-- One word after the other: what comes before is the same number of fields in both lists. -/
theorem settled_differences_cellsFrom (start count : Nat)
    (alike : ∀ m, start ≤ m → m < start + count → IsData m →
      (cellAt words m).Alike e (fieldsBefore e words m = 0) (cellAt words' m)) :
    settled (fieldsBefore e words start) (differences e (cellsFrom words start count)) =
      settled (fieldsBefore e words start) (differences e (cellsFrom words' start count)) := by
  induction count generalizing start with
  | zero => rfl
  | succ count ih =>
    have here := settled_differences_cellAt (alike start (Nat.le_refl start) (by omega))
    have later := ih (start + 1) fun m low high => alike m (by omega) (by omega)
    rw [Nat.add_comm count 1, cellsFrom_append, cellsFrom_append, differences_append,
      differences_append]
    apply settled_bind (fun _ => differences e (cellsFrom words (start + 1) count))
      (fun _ => differences e (cellsFrom words' (start + 1) count)) here
    intro ds read
    rwa [← fieldsBefore_add read]

/-- One frame after the other, until enough is held. Frames that are not needed may differ in
everything. -/
theorem settled_gather (k count : Nat)
    (alike : ∀ m, 16 * k ≤ m → m < 16 * (k + count) → IsData m →
      fieldsBefore e words (16 * (m / 16)) < wanted →
      (cellAt words m).Alike e (fieldsBefore e words m = 0) (cellAt words' m)) :
    settled (fieldsBefore e words (16 * k))
        (gather e (wanted - fieldsBefore e words (16 * k))
          ((List.range' k count).map fun k => cellsFrom words (16 * k) 16)) =
      settled (fieldsBefore e words (16 * k))
        (gather e (wanted - fieldsBefore e words (16 * k))
          ((List.range' k count).map fun k => cellsFrom words' (16 * k) 16)) := by
  induction count generalizing k with
  | zero => rfl
  | succ count ih =>
    by_cases needed : fieldsBefore e words (16 * k) < wanted
    · have here := settled_differences_cellsFrom (16 * k) 16
        fun m low high data => alike m low (by omega) data
          (by rwa [show m / 16 = k by omega])
      have later := ih (k + 1) fun m low high => alike m (by omega) (by omega)
      rw [List.range'_succ, List.map_cons, List.map_cons, gather_cons (by omega),
        gather_cons (by omega)]
      apply settled_bind (fun found => gather e (_ - found) _)
        (fun found => gather e (_ - found) _) here
      intro ds read
      have counted := fieldsBefore_add read
      rwa [Nat.mul_succ, counted, Nat.sub_add_eq] at later
    · have enough : wanted - fieldsBefore e words (16 * k) = 0 := by omega
      rw [enough, List.range'_succ, List.map_cons, List.map_cons]
      rfl

theorem dataWords_eq (words : List Word) (k : Nat) :
    dataWords words k = cellsFrom words (16 * k) 16 := by
  have numbers : ((List.range' (16 * k) 16).filter fun m => IsData m) =
      (List.range' (if k = 0 then 3 else 1) (if k = 0 then 13 else 15)).map (16 * k + ·) := by
    have frame : List.range' (16 * k) 16 = (List.range' 0 16).map (16 * k + ·) := by
      rw [List.map_add_range', Nat.add_zero]
    rw [frame, List.filter_map]
    by_cases first : k = 0
    · subst first
      decide
    · have data : ∀ j ∈ List.range' 0 16,
          ((fun m => decide (IsData m)) ∘ (16 * k + ·)) j = decide (j ≠ 0) := by
        intro j hj
        have small := (List.mem_range'_1.1 hj).2
        have data : IsData (16 * k + j) ↔ j ≠ 0 := by
          rw [IsData]
          omega
        exact decide_eq_decide.2 data
      rw [List.filter_congr data, if_neg first, if_neg first]
      rfl
  rw [cellsFrom, numbers, List.map_map, dataWords]
  apply List.map_congr_left
  intro j hj
  have small : j < 16 := by
    have := (List.mem_range'_1.1 hj).2
    split at this <;> omega
  have frame : (16 * k + j) / 16 = k := by omega
  have place : (16 * k + j) % 16 = j := by omega
  simp only [Function.comp, cellAt, frame, place]

/-- Frames of whole words settle alike where the words agree on what is needed. -/
theorem settled_gather_ofWords (whole : words.length % 16 = 0)
    (length : words.length = words'.length) (alike : Alike e wanted words words') :
    settled 0 (gather e wanted (dataCells (Frame.ofWords words))) =
      settled 0 (gather e wanted (dataCells (Frame.ofWords words'))) := by
  have frames (words : List Word) : dataFrames words =
      (List.range' 0 (words.length / 16)).map fun k => cellsFrom words (16 * k) 16 := by
    rw [dataFrames, List.range_eq_range']
    exact List.map_congr_left fun k _ => dataWords_eq words k
  rw [dataCells_ofWords whole, dataCells_ofWords (length ▸ whole), frames, frames, ← length]
  exact settled_gather 0 (words.length / 16) fun m _ inside => alike.data m (by omega)

/-- The samples depend on the forward constant and on what is settled of the differences. -/
theorem samples_congr {first first' : Frame} {rest rest' : List Frame}
    (forward : first.body.getD 0 0 = first'.body.getD 0 0)
    (same : settled 0 (gather e wanted (dataCells (first :: rest))) =
      settled 0 (gather e wanted (dataCells (first' :: rest')))) :
    samples e wanted (first :: rest) = samples e wanted (first' :: rest') := by
  rw [samples, samples, forward]
  cases found : gather e wanted (dataCells (first :: rest)) with
  | error fault =>
    cases found' : gather e wanted (dataCells (first' :: rest')) with
    | error fault' =>
      rw [found, found'] at same
      rw [Except.error.inj same]
    | ok ds' =>
      rw [found, found'] at same
      cases same
  | ok ds =>
    cases found' : gather e wanted (dataCells (first' :: rest')) with
    | error fault' =>
      rw [found, found'] at same
      cases same
    | ok ds' =>
      rw [found, found'] at same
      obtain ⟨count, kept⟩ := Prod.mk.inj (Except.ok.inj same)
      simp only [Nat.sub_zero] at kept
      simp only [count, List.drop_take, kept]

end Following

section Decoding

variable {e : Encoding} {buffer : List UInt8} {wanted : Nat} {order : ByteOrder}

/-- Buffers of one length that agree on what is needed are decoded to the same samples, or fail for
the same reason. -/
theorem samples_decode_congr {buffer' : List UInt8} (length : buffer.length = buffer'.length)
    (alike : Alike e wanted (Word.ofBuffer order buffer) (Word.ofBuffer order buffer')) :
    (decode e buffer wanted order).samples = (decode e buffer' wanted order).samples := by
  by_cases none : wanted = 0
  · rw [none, decode_zero, decode_zero]
  by_cases whole : buffer.length % frameBytes = 0
  · have count := Word.length_ofBuffer order buffer
    have count' := Word.length_ofBuffer order buffer'
    rw [samples_decode e order none whole, samples_decode e order none (length ▸ whole)]
    rw [frameBytes] at whole
    have same := settled_gather_ofWords (by omega) (by omega) alike
    cases frames : Frame.ofWords (Word.ofBuffer order buffer) with
    | nil =>
      have empty : Word.ofBuffer order buffer' = [] := by
        rw [Frame.ofWords_eq_nil_iff, ← List.length_eq_zero_iff] at frames
        rw [← List.length_eq_zero_iff]
        omega
      rw [Frame.ofWords_eq_nil_iff.2 empty]
    | cons first rest =>
      cases frames' : Frame.ofWords (Word.ofBuffer order buffer') with
      | nil =>
        have empty : Word.ofBuffer order buffer = [] := by
          rw [Frame.ofWords_eq_nil_iff, ← List.length_eq_zero_iff] at frames'
          rw [← List.length_eq_zero_iff]
          omega
        cases frames.symm.trans (Frame.ofWords_eq_nil_iff.2 empty)
      | cons first' rest' =>
        rw [frames, frames'] at same
        have forward : first.body.getD 0 0 = first'.body.getD 0 0 := by
          rw [(Frame.constants_of_ofWords frames).1, (Frame.constants_of_ofWords frames').1]
          exact alike.forward
        rw [samples_congr forward same]
  · rw [decode_of_partial e order none whole, decode_of_partial e order none (length ▸ whole),
      length]

/-- The line that is logged for decoded samples, if their last is not the reverse constant. -/
theorem lines_decode {decoded : List Sample} (some : wanted ≠ 0)
    (found : (decode e buffer wanted order).samples = .ok decoded) :
    ∃ last, decoded.getLast? = .some last ∧
      (decode e buffer wanted order).lines =
        let reverse := ((Word.ofBuffer order buffer).getD 2 0).toSample
        if last = reverse then []
        else
          [⟨.warn, s!"{e.name}: last sample {last.toInt} does not match " ++
            s!"reverse integration constant {reverse.toInt}"⟩] := by
  obtain ⟨whole, first, rest, frames, read⟩ := exists_frames_of_decode some found
  obtain ⟨ds, -, -, rfl⟩ := samples_eq_ok_iff.1 read
  cases last : (integrate (first.body.getD 0 0).toSample ((ds.take wanted).drop 1)).getLast? with
  | none =>
    rw [List.getLast?_eq_none_iff] at last
    have := congrArg List.length last
    simp at this
  | some last' =>
    refine ⟨last', rfl, ?_⟩
    rw [decode_of_whole e order some whole, frames, read, ← (Frame.constants_of_ofWords frames).2]
    simp only [checkLast, List.head?_cons, last]

theorem lines_decode_of_error {failure : Failure}
    (failed : (decode e buffer wanted order).samples = .error failure) :
    (decode e buffer wanted order).lines = [] := by
  by_cases none : wanted = 0
  · rw [none, decode_zero]
  by_cases whole : buffer.length % frameBytes = 0
  · rw [decode_of_whole e order none whole] at failed ⊢
    cases read : samples e wanted (Frame.ofWords (Word.ofBuffer order buffer)) with
    | error fault => rfl
    | ok decoded =>
      rw [read] at failed
      cases failed
  · rw [decode_of_partial e order none whole]

end Decoding

/-- Which bits of a buffer can matter. Two buffers of one length that agree on the forward constant,
and in the frames needed for `wanted` samples on the nibbles of the data words and on all of their
bits that are not idle, decode to the same samples or fail for the same reason; in particular
nothing depends on the reverse constant. That is only compared with the last sample: one warning is
logged if they differ, and nothing else ever. -/
theorem decode_observes (machine : ByteOrder) (e : Encoding) (buffer : List UInt8) (wanted : Nat)
    (swap : Bool) :
    let words := Word.ofBuffer (machine.ofSwap swap)
    let answer := (Codec.native machine).decode ⟨e, buffer, wanted, swap⟩
    (∀ buffer' : List UInt8, buffer.length = buffer'.length →
      Alike e wanted (words buffer) (words buffer') →
      ((Codec.native machine).decode ⟨e, buffer', wanted, swap⟩).samples = answer.samples) ∧
    (∀ decoded, wanted ≠ 0 → answer.samples = .ok decoded →
      ∃ last, decoded.getLast? = some last ∧
        answer.lines =
          let reverse := ((words buffer).getD 2 0).toSample
          if last = reverse then []
          else
            [⟨.warn, s!"{e.name}: last sample {last.toInt} does not match " ++
              s!"reverse integration constant {reverse.toInt}"⟩]) ∧
    (wanted = 0 ∨ (∃ failure, answer.samples = .error failure) → answer.lines = []) := by
  intro words answer
  refine ⟨?_, ?_, ?_⟩
  · intro buffer' length alike
    exact (samples_decode_congr length alike).symm
  · intro decoded some found
    exact lines_decode some found
  · rintro (none | ⟨failure, failed⟩)
    · show (decode e buffer wanted (machine.ofSwap swap)).lines = []
      rw [none, decode_zero]
    · exact lines_decode_of_error failed

/-- Three frames of which two are needed for nine samples, with the bits of one word wherever they
do not matter: six fields behind the first one, then a word of four, then a frame too many. -/
def nineSamples (idle : Word) : List UInt8 :=
  Word.toBuffer .big <|
    [0xC00000 ||| idle &&& 0xFC000000, 5, idle, idle, 0x80234567 ||| idle &&& 0x3F000000] ++
      List.replicate 11 idle ++
    [0x10000000 ||| idle &&& 0xC0000000, 0x01010101] ++ List.replicate 14 idle ++
    List.replicate 16 idle

/-- The reverse constant and all other idle bits can be set without a change to the samples, but the
reverse constant is missed. -/
theorem decode_observes_nineSamples :
    let answer (idle : Word) := (Codec.native .little).decode ⟨.steim2, nineSamples idle, 9, true⟩
    nineSamples 34 ≠ nineSamples 0xFFFFFFFF ∧
      (answer 34).samples = .ok [5, 7, 10, 14, 19, 25, 32, 33, 34] ∧
      (answer 0xFFFFFFFF).samples = (answer 34).samples ∧ (answer 34).lines = [] ∧
      (answer 0xFFFFFFFF).lines =
        [⟨.warn, "STEIM2: last sample 34 does not match reverse integration constant -1"⟩] := by
  intro answer
  have found : (answer 34).samples = .ok [5, 7, 10, 14, 19, 25, 32, 33, 34] := by
    show (decode .steim2 (nineSamples 34) 9 .big).samples = _
    rw [samples_decode _ _ (Nat.succ_ne_zero 8) (by decide +kernel), Frame.ofWords_eq _ rfl]
    rfl
  obtain ⟨same, logged, -⟩ := decode_observes .little .steim2 (nineSamples 34) 9 true
  have alike := same (nineSamples 0xFFFFFFFF) rfl (by decide +kernel)
  obtain ⟨last, final, lines⟩ := logged _ (Nat.succ_ne_zero 8) found
  obtain ⟨last', final', lines'⟩ :=
    (decode_observes .little .steim2 (nineSamples 0xFFFFFFFF) 9 true).2.1 _
    (Nat.succ_ne_zero 8) (alike.trans found)
  obtain rfl : 34 = last := Option.some.inj final
  obtain rfl : 34 = last' := Option.some.inj final'
  exact ⟨by decide +kernel, found, alike, lines.trans (by decide +kernel),
    lines'.trans (by decide +kernel)⟩

end Seismogram.Steim
