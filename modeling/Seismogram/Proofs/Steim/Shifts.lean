import Seismogram.Steim.Machine

/-!
# Fields by shifts and a mask

A field of a word is a quotient and a remainder by powers of two. On a machine these are a shift
and a mask, and a sign is extended by shifting the field to the leading end of the word and back.
All shifts stay below the width of a word as long as the fields fit into it, so no trap is met, and
the fields that a machine appends are those of the word.
-/

namespace Seismogram.Steim

attribute [local instance (2000)] instPowNat

theorem Word.fields_succ (w : Word) (count bits : Nat) :
    w.fields (count + 1) bits = signed bits (w.field bits count) :: w.fields count bits := by
  have later (i : Nat) : count + 1 - 1 - (i + 1) = count - 1 - i := by omega
  simp only [fields, List.range_succ_eq_map, List.map_cons, List.map_map, Function.comp_def,
    Nat.succ_eq_add_one, later]
  rfl

namespace Machine

section Operations

variable {α β : Type}

theorem bind_of_ok {first : Except Trap α} {a : α} (done : first = .ok a)
    (next : α → Except Trap β) : first >>= next = next a := by
  rw [done]
  rfl

theorem subtract_of_le {count less : Nat} (enough : less ≤ count) :
    subtract count less = .ok (count - less) := if_pos enough

theorem element_of_lt {words : List Word} {index : Nat} (inside : index < words.length) :
    element words index = .ok (words.getD index 0) := by
  simp [element, List.getD_eq_getElem?_getD, List.getElem?_eq_getElem inside]

theorem part_of_le {xs : List α} {start stop : Nat} (ordered : start ≤ stop)
    (inside : stop ≤ xs.length) : part xs start stop = .ok ((xs.take stop).drop start) :=
  if_pos ⟨ordered, inside⟩

theorem shiftLeft_of_lt (w : Word) {amount : Nat} (small : amount < 32) :
    ∃ w', shiftLeft w amount = .ok w' ∧ w'.toNat = w.toNat * 2 ^ amount % 2 ^ (32 : Nat) := by
  refine ⟨_, if_pos small, ?_⟩
  rw [UInt32.toNat_shiftLeft, UInt32.toNat_ofNat_of_lt' (by rw [UInt32.size]; omega),
    Nat.mod_eq_of_lt small, Nat.shiftLeft_eq]

theorem shiftRight_of_lt (w : Word) {amount : Nat} (small : amount < 32) :
    ∃ w', shiftRight w amount = .ok w' ∧ w'.toNat = w.toNat / 2 ^ amount := by
  refine ⟨_, if_pos small, ?_⟩
  rw [UInt32.toNat_shiftRight, UInt32.toNat_ofNat_of_lt' (by rw [UInt32.size]; omega),
    Nat.mod_eq_of_lt small, Nat.shiftRight_eq_div_pow]

theorem shiftRightSigned_of_lt (d : Sample) {amount : Nat} (small : amount < 32) :
    ∃ d', shiftRightSigned d amount = .ok d' ∧ d'.toInt = d.toInt / 2 ^ amount := by
  refine ⟨_, if_pos small, ?_⟩
  have table : ∀ amount < 32, ((Int32.ofNat amount).toBitVec.smod 32).toNat = amount := by decide
  show (BitVec.sshiftRight' d.toBitVec ((Int32.ofNat amount).toBitVec.smod 32)).toInt = _
  rw [BitVec.toInt_sshiftRight', table amount small, Int.shiftRight_eq_div_pow]
  rfl

end Operations

theorem toInt_toInt32 (w : Word) : w.toInt32.toInt = Int.bmod w.toNat (2 ^ (32 : Nat)) :=
  BitVec.toInt_eq_toNat_bmod w.toBitVec

/-- Shifting a field to the leading end of a word multiplies it, and with it the modulus of its
two's-complement form, by a power of two, which shifting it back takes away again. -/
theorem signExtend_eq (w : Word) {bits : Nat} (pos : 1 ≤ bits) (fit : bits ≤ 32) :
    signExtend w bits = .ok (Word.signed bits w.toNat) := by
  obtain ⟨leading, raised, leads⟩ := shiftLeft_of_lt w (show 32 - bits < 32 by omega)
  obtain ⟨d, lowered, value⟩ :=
    shiftRightSigned_of_lt leading.toInt32 (show 32 - bits < 32 by omega)
  have width : 2 ^ 32 = 2 ^ (32 - bits) * 2 ^ bits := by
    rw [← Nat.pow_add]
    congr 1
    omega
  have multiple : leading.toInt32.toInt = 2 ^ (32 - bits) * Int.bmod w.toNat (2 ^ bits) := by
    rw [toInt_toInt32, leads, Int.natCast_emod, Int.emod_bmod, width, Nat.mul_comm,
      Int.natCast_mul, Int.mod_bmod_mul_of_pos _ _ (Nat.two_pow_pos _) (Nat.pow_dvd_pow 2 pos)]
    simp
  have exact : d.toInt = Int.bmod w.toNat (2 ^ bits) := by
    rw [value, multiple, Int.mul_ediv_cancel_left]
    exact Int.ne_of_gt (Int.pow_pos (by decide))
  rw [signExtend, bind_of_ok (subtract_of_le fit), bind_of_ok raised, lowered, Word.signed, ← exact,
    Int32.ofInt_toInt]

theorem nibble_eq (control : Word) {index : Nat} (inside : index < 16) :
    ∃ code, nibble control index = .ok code ∧ code.toNat = Word.nibble control index := by
  have amount : subtract 30 (2 * index) = .ok (30 - 2 * index) := subtract_of_le (by omega)
  obtain ⟨low, shifted, value⟩ := shiftRight_of_lt control (show 30 - 2 * index < 32 by omega)
  refine ⟨low &&& 3, ?_, ?_⟩
  · rw [nibble, bind_of_ok amount, bind_of_ok shifted]
    rfl
  · rw [UInt32.toNat_and, value]
    exact Nat.and_two_pow_sub_one_eq_mod _ 2

theorem pushFields_eq {w mask : Word} {bits : Nat} (low : mask.toNat = 2 ^ bits - 1)
    (pos : 1 ≤ bits) {count : Nat} (room : count * bits ≤ 32) (held : List Sample) :
    pushFields w mask bits count held = .ok (held ++ w.fields count bits) := by
  induction count generalizing held with
  | zero => exact congrArg Except.ok (List.append_nil held).symm
  | succ number ih =>
    rw [Nat.succ_mul] at room
    obtain ⟨lower, shifted, value⟩ := shiftRight_of_lt w (show number * bits < 32 by omega)
    have field : (lower &&& mask).toNat = w.field bits number := by
      rw [UInt32.toNat_and, value, low, Nat.and_two_pow_sub_one_eq_mod, Word.field, Nat.mul_comm]
    have extended := signExtend_eq (lower &&& mask) pos (by omega)
    rw [field] at extended
    rw [pushFields, bind_of_ok shifted, bind_of_ok extended, ih (by omega), Word.fields_succ]
    simp

/-- Fields that fit into a word are appended in their order, the most significant first. -/
theorem pushPacked_eq (w : Word) {count bits : Nat} (pos : 1 ≤ bits) (short : bits < 32)
    (room : count * bits ≤ 32) (held : List Sample) :
    pushPacked w count bits held = .ok (held ++ w.fields count bits) := by
  obtain ⟨power, shifted, value⟩ := shiftLeft_of_lt 1 short
  have size : 2 ^ bits < 2 ^ 32 := Nat.pow_lt_pow_right (by decide) short
  have exact : power.toNat = 2 ^ bits := by
    rw [value, UInt32.toNat_one, Nat.one_mul, Nat.mod_eq_of_lt size]
  have mask : subtract power.toNat 1 = .ok (2 ^ bits - 1) := by
    rw [exact]
    exact subtract_of_le (Nat.two_pow_pos bits)
  have low : (UInt32.ofNat (2 ^ bits - 1)).toNat = 2 ^ bits - 1 := by
    apply UInt32.toNat_ofNat_of_lt'
    rw [UInt32.size]
    omega
  rw [pushPacked, bind_of_ok shifted, bind_of_ok mask]
  exact pushFields_eq low pos room held

theorem toInt32_toInt8 (byte : UInt8) : byte.toInt8.toInt32 = Word.signed 8 byte.toNat := by
  rw [← Int32.ofInt_toInt byte.toInt8.toInt32, Int8.toInt_toInt32]
  exact congrArg Int32.ofInt (BitVec.toInt_eq_toNat_bmod byte.toBitVec)

theorem pushBytes_eq (w : Word) (held : List Sample) : pushBytes w held = held ++ w.fields 4 8 := by
  simp [pushBytes, Word.bytes, toInt32_toInt8, Word.fields, List.range_succ, Word.field]

/-- A whole word is a field of its own. -/
theorem fields_whole (w : Word) : w.fields 1 32 = [w.toInt32] := by
  rw [← Int32.ofInt_toInt w.toInt32, toInt_toInt32]
  simp [Word.fields, Word.field, Word.signed, Nat.mod_eq_of_lt w.toNat_lt]

end Machine
end Seismogram.Steim
