import Seismogram.Steim.Frame

/-!
# Writing differences into data words

The counterpart of reading a data word. Fields are laid side by side, the first of them in the
leading bits, and a word is joined from its selector and its fields. A word written in a layout
of an encoding is read in that same layout (`Slot.layout?_cell`) as the differences it was
written with (`Slot.differences_cell`).
-/

namespace Seismogram.Steim

/- Powers are those of the core library, whatever algebra is imported beside it. -/
attribute [local instance (2000)] instPowNat

/-- Whether a difference has a two's-complement form in `bits` bits. -/
def FitsIn (bits : Nat) (d : Sample) : Prop :=
  -2 ^ (bits - 1) ≤ d.toInt ∧ d.toInt < 2 ^ (bits - 1)

instance (bits : Nat) (d : Sample) : Decidable (FitsIn bits d) :=
  @instDecidableAnd _ _ (Int.decLe _ _) (Int.decLt _ _)

namespace Word

/-- The two's-complement form of a difference in `bits` bits. -/
def unsigned (bits : Nat) (d : Sample) : Nat := (d.toInt % 2 ^ bits).toNat

/-- Fields of `bits` bits side by side, the first of them in the leading bits. -/
def join (bits : Nat) : List Nat → Nat
  | [] => 0
  | v :: vs => v % 2 ^ bits * 2 ^ (bits * vs.length) + join bits vs

theorem unsigned_lt (bits : Nat) (d : Sample) : unsigned bits d < 2 ^ bits := by
  have pos : (0 : Int) < 2 ^ bits := Int.pow_pos (by decide)
  have upper := Int.emod_lt_of_pos d.toInt pos
  have lower := Int.emod_nonneg d.toInt (Int.ne_of_gt pos)
  have cast : ((2 ^ bits : Nat) : Int) = (2 : Int) ^ bits := by simp
  rw [unsigned]
  omega

theorem signed_unsigned {bits : Nat} {d : Sample} (pos : 1 ≤ bits) (fit : FitsIn bits d) :
    signed bits (unsigned bits d) = d := by
  have modulus : (0 : Int) < 2 ^ bits := Int.pow_pos (by decide)
  have lower := Int.emod_nonneg d.toInt (Int.ne_of_gt modulus)
  have cast : ((2 ^ bits : Nat) : Int) = (2 : Int) ^ bits := by simp
  have half : (2 : Int) ^ bits = 2 ^ (bits - 1) * 2 := by
    rw [← Int.pow_succ]; congr 1; omega
  obtain ⟨low, high⟩ := fit
  rw [signed, unsigned, Int.toNat_of_nonneg lower, ← cast, Int.emod_bmod, Int.bmod_eq_of_le,
    Int32.ofInt_toInt] <;>
    omega

theorem join_lt (bits : Nat) (vs : List Nat) : join bits vs < 2 ^ (bits * vs.length) := by
  induction vs with
  | nil => simp [join]
  | cons v vs ih =>
    have hv : v % 2 ^ bits < 2 ^ bits := Nat.mod_lt _ (Nat.two_pow_pos bits)
    calc join bits (v :: vs)
        < v % 2 ^ bits * 2 ^ (bits * vs.length) + 2 ^ (bits * vs.length) :=
          Nat.add_lt_add_left ih _
      _ = (v % 2 ^ bits + 1) * 2 ^ (bits * vs.length) := by rw [Nat.add_mul, Nat.one_mul]
      _ ≤ 2 ^ bits * 2 ^ (bits * vs.length) := Nat.mul_le_mul_right _ hv
      _ = 2 ^ (bits * (v :: vs).length) := by
          rw [List.length_cons, Nat.mul_succ, Nat.pow_add, Nat.mul_comm]

/-- Each field is found at its place, whatever stands above the fields. -/
theorem getElem_join (bits high : Nat) (vs : List Nat) (i : Nat) (hi : i < vs.length) :
    (high * 2 ^ (bits * vs.length) + join bits vs) / 2 ^ (bits * (vs.length - 1 - i)) % 2 ^ bits
      = vs[i] % 2 ^ bits := by
  induction vs generalizing high i with
  | nil => exact absurd hi (Nat.not_lt_zero i)
  | cons v vs ih =>
    have shift : high * 2 ^ (bits * (v :: vs).length) + join bits (v :: vs)
        = (high * 2 ^ bits + v % 2 ^ bits) * 2 ^ (bits * vs.length) + join bits vs := by
      rw [List.length_cons, Nat.mul_succ, Nat.pow_add, join, Nat.add_mul, Nat.mul_assoc,
        Nat.mul_comm (2 ^ bits), Nat.add_assoc]
    rw [shift]
    cases i with
    | zero =>
      have top : (v :: vs).length - 1 - 0 = vs.length := by simp
      rw [top, Nat.mul_comm _ (2 ^ (bits * vs.length)), Nat.mul_add_div (Nat.two_pow_pos _),
        Nat.div_eq_of_lt (join_lt bits vs), Nat.add_zero, Nat.mul_comm, Nat.mul_add_mod,
        Nat.mod_mod]
      rfl
    | succ i =>
      have below : (v :: vs).length - 1 - (i + 1) = vs.length - 1 - i := by
        rw [List.length_cons]; omega
      rw [below, ih _ i (Nat.lt_of_succ_lt_succ hi)]
      rfl

end Word

/-- A layout with a selector leaves the two leading bits of the word free for it. -/
theorem selector_bounds (e : Encoding) :
    ∀ layout ∈ layouts e, ∀ selector ∈ layout.selector,
      selector < 4 ∧ layout.bits * layout.count ≤ 30 := by
  cases e <;> decide

/-- No word is written in two layouts of one encoding. -/
theorem layouts_disjoint (e : Encoding) :
    ∀ a ∈ layouts e, ∀ b ∈ layouts e, a.nibble = b.nibble →
      (a.selector = none ∨ b.selector = none ∨ a.selector = b.selector) → a = b := by
  cases e <;> decide

namespace Layout

variable {e : Encoding} {layout : Layout} {ds : List Sample}

/-- The word that carries a group of differences. -/
def pack (layout : Layout) (ds : List Sample) : Word :=
  UInt32.ofNat (layout.selector.getD 0 * Word.selectorWeight
    + Word.join layout.bits (ds.map (Word.unsigned layout.bits)))

theorem toNat_pack (mem : layout ∈ layouts e) (len : ds.length = layout.count) :
    (layout.pack ds).toNat = layout.selector.getD 0 * Word.selectorWeight
      + Word.join layout.bits (ds.map (Word.unsigned layout.bits)) := by
  refine UInt32.toNat_ofNat_of_lt' ?_
  have bound := Word.join_lt layout.bits (ds.map (Word.unsigned layout.bits))
  rw [List.length_map, len] at bound
  rw [UInt32.size]
  cases hs : layout.selector with
  | none =>
    have room := (layout_bounds e layout mem).2.2.2.2.2
    rw [Nat.mul_comm] at room
    have := Nat.pow_le_pow_right (n := 2) (by decide) room
    rw [Option.getD_none]
    omega
  | some s =>
    obtain ⟨small, room⟩ := selector_bounds e layout mem s hs
    have := Nat.pow_le_pow_right (n := 2) (by decide) room
    rw [Option.getD_some, Word.selectorWeight]
    omega

theorem selector_pack (mem : layout ∈ layouts e) (len : ds.length = layout.count) {s : Nat}
    (hs : layout.selector = some s) : (layout.pack ds).selector = s := by
  have room := Nat.pow_le_pow_right (n := 2) (by decide) (selector_bounds e layout mem s hs).2
  have bound := Word.join_lt layout.bits (ds.map (Word.unsigned layout.bits))
  rw [List.length_map, len] at bound
  rw [Word.selector, toNat_pack mem len, hs, Option.getD_some, Word.selectorWeight]
  omega

theorem field_pack (mem : layout ∈ layouts e) (len : ds.length = layout.count) (i : Nat)
    (hi : i < ds.length) :
    (layout.pack ds).field layout.bits (layout.count - 1 - i) =
      Word.unsigned layout.bits ds[i] := by
  obtain ⟨high, above⟩ : ∃ high, layout.selector.getD 0 * Word.selectorWeight
      = high * 2 ^ (layout.bits * layout.count) := by
    cases hs : layout.selector with
    | none => exact ⟨0, by simp⟩
    | some s =>
      have room := (selector_bounds e layout mem s hs).2
      refine ⟨s * 2 ^ (30 - layout.bits * layout.count), ?_⟩
      rw [Nat.mul_assoc, ← Nat.pow_add, Nat.sub_add_cancel room, Option.getD_some,
        Word.selectorWeight]
  have key := Word.getElem_join layout.bits high (ds.map (Word.unsigned layout.bits)) i (by simpa)
  rw [List.getElem_map, Nat.mod_eq_of_lt (Word.unsigned_lt _ _)] at key
  rw [Word.field, toNat_pack mem len, above, ← key, List.length_map, len]

theorem fields_pack (mem : layout ∈ layouts e) (len : ds.length = layout.count)
    (fit : ∀ d ∈ ds, FitsIn layout.bits d) :
    (layout.pack ds).fields layout.count layout.bits = ds := by
  have pos := (layout_bounds e layout mem).2.2.2.2.1
  apply List.ext_getElem (by simp [len])
  intro i _ hi
  simp only [Word.fields, List.getElem_map, List.getElem_range]
  rw [field_pack mem len i hi, Word.signed_unsigned pos (fit _ (List.getElem_mem hi))]

end Layout

/-- What a data word is used for. -/
inductive Slot where
  /-- A group of differences in the given layout. -/
  | group (layout : Layout) (differences : List Sample)
  /-- A word of nibble zero, which carries no difference. -/
  | skipped (word : Word)
  deriving DecidableEq, Repr

namespace Slot

variable {e : Encoding} {slot : Slot} {layout : Layout} {ds : List Sample}

def differences : Slot → List Sample
  | .group _ ds => ds
  | .skipped _ => []

def cell : Slot → Cell
  | .group layout ds => ⟨layout.nibble, layout.pack ds⟩
  | .skipped word => ⟨0, word⟩

/-- A group is legal if its layout stands in the table and its differences fill the fields. -/
def Legal (table : List Layout) : Slot → Prop
  | .group layout ds =>
    layout ∈ table ∧ ds.length = layout.count ∧ ∀ d ∈ ds, FitsIn layout.bits d
  | .skipped _ => True

-- The bound of `∀ d ∈ ds` is the list: samples are also a finite type, too large to go through.
instance (table : List Layout) : (slot : Slot) → Decidable (slot.Legal table)
  | .group layout ds =>
    @instDecidableAnd (layout ∈ table) (ds.length = layout.count ∧ ∀ d ∈ ds, FitsIn layout.bits d) _
      (@instDecidableAnd _ _ _ (List.decidableBAll (FitsIn layout.bits) ds))
  | .skipped _ => instDecidableTrue

/-- A control word has room for the nibble of a legal word. -/
theorem nibble_cell_lt (legal : slot.Legal (layouts e)) : slot.cell.nibble < 4 := by
  cases slot with
  | group layout ds => exact (layout_bounds e layout legal.1).2.1
  | skipped word => exact (by decide : 0 < 4)

theorem clip_cell (legal : slot.Legal (layouts e)) : slot.cell.clip = slot.cell := by
  rw [Cell.clip, Nat.mod_eq_of_lt (nibble_cell_lt legal)]

/-- A legal word is read in the layout it was written in. -/
theorem layout?_cell (legal : (group layout ds).Legal (layouts e)) :
    (group layout ds).cell.layout? e = some layout := by
  obtain ⟨mem, len, -⟩ := legal
  have fits : layout.fits (group layout ds).cell = true := by
    rw [Layout.fits]
    cases hs : layout.selector with
    | none => simp [cell]
    | some s => simp [cell, Layout.selector_pack mem len hs]
  cases found : (group layout ds).cell.layout? e with
  | none => exact absurd fits (List.find?_eq_none.1 found layout mem)
  | some other =>
    have memOther := List.mem_of_find?_eq_some found
    have fitsOther := List.find?_some found
    simp only [Layout.fits, Bool.and_eq_true, decide_eq_true_eq] at fits fitsOther
    refine congrArg some (layouts_disjoint e other memOther layout mem fitsOther.1 ?_)
    cases ha : other.selector with
    | none => exact .inl rfl
    | some a =>
      cases hb : layout.selector with
      | none => exact .inr (.inl rfl)
      | some b =>
        rw [ha, Option.all_some, decide_eq_true_eq] at fitsOther
        rw [hb, Option.all_some, decide_eq_true_eq] at fits
        exact .inr (.inr (by rw [fits.2, fitsOther.2]))

theorem differences_cell (legal : slot.Legal (layouts e)) :
    slot.cell.differences e = .ok slot.differences := by
  cases slot with
  | skipped word => rfl
  | group layout ds =>
    have nonzero : (group layout ds).cell.nibble ≠ 0 :=
      Nat.ne_of_gt (layout_bounds e layout legal.1).1
    rw [Cell.differences, if_neg nonzero, layout?_cell legal]
    exact congrArg Except.ok (Layout.fields_pack legal.1 legal.2.1 legal.2.2)

end Slot
end Seismogram.Steim
