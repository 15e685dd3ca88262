import Seismogram.Proofs.Steim.Shifts
import Seismogram.Steim.Packing

/-!
# Fields are signed digits

The fields of a word are the digits of its lowest bits in base `2 ^ bits`, each of them moved into
the range that is centred on zero. A remainder has one representative there, so the digits come
back from the fields, and put together they are the lowest bits again. The bits above have no say.

Field by field this is a fact about remainders (`toInt_signed`); the word is then followed from its
last field up (`Word.fields_succ`).
-/

namespace Seismogram.Steim

attribute [local instance (2000)] instPowNat Zero.ofOfNat0

namespace Word

section Field

variable {bits : Nat}

theorem toInt_signed (fit : bits ≤ 32) (v : Nat) :
    (signed bits v).toInt = Int.bmod v (2 ^ bits) := by
  have modulus : 0 < 2 ^ bits := Nat.two_pow_pos bits
  have size : 2 ^ bits ≤ 2 ^ 32 := Nat.pow_le_pow_right (by decide) fit
  have least := Int.le_bmod (x := v) modulus
  have greatest := Int.bmod_lt (x := v) modulus
  rw [signed, Int32.toInt_ofInt_of_le] <;> omega

/-- A field is at least the negative of half its modulus, and less than half of it. -/
theorem fitsIn_signed (pos : 1 ≤ bits) (fit : bits ≤ 32) (v : Nat) :
    FitsIn bits (signed bits v) := by
  have modulus : 0 < 2 ^ bits := Nat.two_pow_pos bits
  have half : 2 ^ bits = 2 ^ (bits - 1) * 2 := by
    rw [← Nat.pow_succ]
    congr 1
    omega
  have cast : ((2 ^ (bits - 1) : Nat) : Int) = 2 ^ (bits - 1) := by simp
  have least := Int.le_bmod (x := v) modulus
  have greatest := Int.bmod_lt (x := v) modulus
  rw [FitsIn, toInt_signed fit]
  omega

theorem toInt_signed_emod (fit : bits ≤ 32) (v : Nat) :
    (signed bits v).toInt % 2 ^ bits = (v : Int) % 2 ^ bits := by
  have cast : (2 : Int) ^ bits = (2 ^ bits : Nat) := by simp
  rw [toInt_signed fit, cast, Int.bmod_emod]

theorem unsigned_signed (fit : bits ≤ 32) (v : Nat) :
    unsigned bits (signed bits v) = v % 2 ^ bits := by
  have cast : (v : Int) % 2 ^ bits = (v % 2 ^ bits : Nat) := by simp
  rw [unsigned, toInt_signed_emod fit, cast, Int.toNat_natCast]

end Field

section Fields

variable {w w' : Word} {count bits : Nat}

/-- Joining the digits of the fields again gives the lowest bits of the word. -/
theorem join_fields (fit : bits ≤ 32) (w : Word) (count : Nat) :
    join bits ((w.fields count bits).map (unsigned bits)) = w.toNat % 2 ^ (bits * count) := by
  induction count with
  | zero => simp [fields, join, Nat.mod_one]
  | succ count ih =>
    calc join bits ((w.fields (count + 1) bits).map (unsigned bits))
        = w.field bits count % 2 ^ bits * 2 ^ (bits * count) +
            join bits ((w.fields count bits).map (unsigned bits)) := by
          rw [fields_succ, List.map_cons, join, unsigned_signed fit, Nat.mod_mod, List.length_map,
            length_fields]
      _ = w.toNat % 2 ^ (bits * count) +
            2 ^ (bits * count) * (w.toNat / 2 ^ (bits * count) % 2 ^ bits) := by
          rw [ih, field, Nat.mod_mod, Nat.add_comm, Nat.mul_comm (2 ^ (bits * count))]
      _ = w.toNat % 2 ^ (bits * (count + 1)) := by
          rw [← Nat.mod_mul, Nat.mul_succ, Nat.pow_add]

/-- A field has only bits among the lowest `bits * count`. -/
theorem field_of_low {k : Nat} (below : k < count) (w : Word) :
    w.toNat % 2 ^ (bits * count) / 2 ^ (bits * k) % 2 ^ bits = w.field bits k := by
  have split : 2 ^ (bits * count) = 2 ^ (bits * k) * 2 ^ (bits * (count - k)) := by
    rw [← Nat.pow_add, ← Nat.mul_add]
    congr 2
    omega
  have inside : 2 ^ bits ∣ 2 ^ (bits * (count - k)) :=
    Nat.pow_dvd_pow 2 (Nat.le_mul_of_pos_right bits (by omega))
  rw [split, Nat.mod_mul_right_div_self, Nat.mod_mod_of_dvd _ inside, field]

/-- Words with the same lowest bits have the same fields. -/
theorem fields_congr (low : w.toNat % 2 ^ (bits * count) = w'.toNat % 2 ^ (bits * count)) :
    w.fields count bits = w'.fields count bits := by
  apply List.map_congr_left
  intro i hi
  have below : count - 1 - i < count := by
    have := List.mem_range.1 hi
    omega
  rw [← field_of_low below w, low, field_of_low below w']

/-- Joined digits are their sum, each weighed by its place. -/
theorem natCast_join_unsigned (bits : Nat) (ds : List Sample) :
    (join bits (ds.map (unsigned bits)) : Int) =
      (ds.mapIdx fun i d => d.toInt % 2 ^ bits * 2 ^ (bits * (ds.length - 1 - i))).sum := by
  have modulus : (0 : Int) < 2 ^ bits := Int.pow_pos (by decide)
  induction ds with
  | nil => rfl
  | cons d ds ih =>
    have digit : (unsigned bits d : Int) = d.toInt % 2 ^ bits :=
      Int.toNat_of_nonneg (Int.emod_nonneg _ (Int.ne_of_gt modulus))
    calc (join bits ((d :: ds).map (unsigned bits)) : Int)
        = unsigned bits d * 2 ^ (bits * ds.length) + join bits (ds.map (unsigned bits)) := by
          rw [List.map_cons, join, Nat.mod_eq_of_lt (unsigned_lt bits d), List.length_map]
          simp
      _ = _ := by
          rw [ih, digit]
          simp [List.mapIdx_cons, Nat.sub_sub, Nat.add_comm]

end Fields
end Word

/-- Packing fields into a word without a selector puts the lowest bits back. -/
theorem Layout.toNat_pack_fields (nibble : Nat) {count bits : Nat} (fit : bits ≤ 32) (w : Word) :
    (Layout.pack ⟨nibble, none, count, bits⟩ (w.fields count bits)).toNat =
      w.toNat % 2 ^ (bits * count) := by
  have small : w.toNat % 2 ^ (bits * count) < UInt32.size :=
    Nat.lt_of_le_of_lt (Nat.mod_le ..) w.toNat_lt
  rw [pack, Word.join_fields fit, Option.getD_none, Nat.zero_mul, Nat.zero_add,
    UInt32.toNat_ofNat_of_lt' small]

/-- What a machine cuts out of a word by shifts and a mask are its signed digits, at every width
and up to fields that fill the word. They come behind those held before, each in the range of its
width and with the remainder of the word shifted to its place, and together they are worth
the lowest bits, which packing them gives back. Bits above the fields change nothing, and four bytes
are fields like any others. -/
theorem Machine.pushPacked_digits (w : Word) {count bits : Nat} (pos : 1 ≤ bits)
    (short : bits ≤ 31) (room : count * bits ≤ 32) (held : List Sample) :
    let ds := w.fields count bits
    Machine.pushPacked w count bits held = .ok (held ++ ds) ∧ ds.length = count ∧
      (∀ i (h : i < ds.length),
        (-2 ^ (bits - 1) ≤ ds[i].toInt ∧ ds[i].toInt < 2 ^ (bits - 1)) ∧
        ds[i].toInt % 2 ^ bits = (w.toNat / 2 ^ (bits * (count - 1 - i)) : Nat) % 2 ^ bits) ∧
      (ds.mapIdx fun i d => (d.toInt % 2 ^ bits * 2 ^ (bits * (count - 1 - i)) : Int)).sum =
        (w.toNat % 2 ^ (count * bits) : Nat) ∧
      (∀ nibble, (Layout.pack ⟨nibble, none, count, bits⟩ ds).toNat =
        w.toNat % 2 ^ (count * bits)) ∧
      (∀ w' : Word, w'.toNat % 2 ^ (count * bits) = w.toNat % 2 ^ (count * bits) →
        Machine.pushPacked w' count bits held = .ok (held ++ ds)) ∧
      Machine.pushPacked w 4 8 held = .ok (Machine.pushBytes w held) := by
  intro ds
  have fit : bits ≤ 32 := Nat.le_succ_of_le short
  have length : ds.length = count := w.length_fields count bits
  have extracted (v : Word) :
      Machine.pushPacked v count bits held = .ok (held ++ v.fields count bits) :=
    pushPacked_eq v pos (Nat.lt_succ_of_le short) room held
  rw [Nat.mul_comm count bits]
  refine ⟨extracted w, length, ?_, ?_, ?_, ?_, ?_⟩
  · intro i h
    have field : ds[i] = Word.signed bits (w.field bits (count - 1 - i)) := by
      simp [ds, Word.fields]
    rw [field]
    refine ⟨Word.fitsIn_signed pos fit _, ?_⟩
    rw [Word.toInt_signed_emod fit, Word.field]
    simp
  · rw [← Word.join_fields fit, Word.natCast_join_unsigned, Word.length_fields]
  · intro nibble
    exact Layout.toNat_pack_fields nibble fit w
  · intro w' low
    rw [extracted w', Word.fields_congr low]
  · rw [pushBytes_eq]
    exact pushPacked_eq w (by decide) (by decide) (by decide) held

/-- Two fields of 16 bits fill a word, here with both ends of their range. Three fields of 10 bits
leave two bits free, which may be set or not. -/
theorem Machine.pushPacked_digits_wholeWord :
    (1 ≤ 16 ∧ 16 ≤ 31 ∧ 2 * 16 ≤ 32) ∧ (1 ≤ 10 ∧ 10 ≤ 31 ∧ 3 * 10 ≤ 32) ∧
      Machine.pushPacked 0x80007FFF 2 16 [7] = .ok [7, -32768, 32767] ∧
      Machine.pushPacked 0xDFF80003 3 10 [7] = .ok [7, 511, -512, 3] ∧
      Machine.pushPacked 0x1FF80003 3 10 [7] = .ok [7, 511, -512, 3] := by
  have wide : 1 ≤ 16 ∧ 16 ≤ 31 ∧ 2 * 16 ≤ 32 := by decide
  have narrow : 1 ≤ 10 ∧ 10 ≤ 31 ∧ 3 * 10 ≤ 32 := by decide
  have two : Word.fields 0x80007FFF 2 16 = [-32768, 32767] := by decide
  have three : Word.fields 0xDFF80003 3 10 = [511, -512, 3] := by decide
  obtain ⟨whole, -⟩ := Machine.pushPacked_digits 0x80007FFF wide.1 wide.2.1 wide.2.2 [7]
  obtain ⟨part, -, -, -, -, alike, -⟩ :=
    Machine.pushPacked_digits 0xDFF80003 narrow.1 narrow.2.1 narrow.2.2 [7]
  have free := alike 0x1FF80003 (by decide)
  rw [two] at whole
  rw [three] at part free
  exact ⟨wide, narrow, whole, part, free⟩

end Seismogram.Steim
