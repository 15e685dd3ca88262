import Mathlib
import Seismogram.Double.Basic

/-!
# Doubles by their parts

A double is a sign, eleven bits of exponent and 52 bits of fraction. A finite one is `± m · 2 ^ q`
with a mantissa that is as long as there is room for (`Representable`), zero included. Taking these
parts off a finite double and putting them together again loses nothing, in either order, so the
sign can be changed without touching the rest.
-/

namespace Seismogram.Double

open Float.Model
open Float.Model.UnpackedFloat

attribute [local instance (2000)] instPowNat

/-- The mantissas and exponents of finite doubles. -/
structure Representable (m : Nat) (q : Int) : Prop where
  lt : m < 2 ^ 53
  least : -1074 ≤ q
  greatest : q ≤ 971
  full : 2 ^ 52 ≤ m ∨ q = -1074

/-- The number `± m · 2 ^ q`. -/
def signed (s : Sign) (m : Nat) (q : Int) : UnpackedFloat :=
  if h : m = 0 then .zero s else .finite s m q (Nat.pos_of_ne_zero h)

def signOf (x : Float) : Sign := if isNegative x then .negative else .positive

section Parts

variable {m : Nat} {q : Int}

theorem signed_of_pos (s : Sign) (pos : 0 < m) : signed s m q = .finite s m q pos := by
  rw [signed, dif_neg (Nat.pos_iff_ne_zero.1 pos)]

@[simp] theorem abs_signed (s : Sign) (m : Nat) (q : Int) :
    (signed s m q).abs = signed .positive m q := by
  unfold signed
  split <;> rfl

@[simp] theorem neg_signed (s : Sign) (m : Nat) (q : Int) :
    (signed s m q).neg = signed (-s) m q := by
  unfold signed
  split <;> rfl

theorem isInf_signed (s : Sign) (m : Nat) (q : Int) : (signed s m q).isInf = false := by
  unfold signed
  split <;> rfl

/-! ### Components -/

/-- What components mean, unless all bits of the exponent are set. -/
theorem unpack_packComponents (s : Sign) {e : BitVec 11} (f : BitVec 52) (finite : e.toNat ≠ 2047) :
    UnpackedFloat.unpack Format.binary64 (packComponents Format.binary64 s e f) =
      if e.toNat = 0 then signed s f.toNat (-1074)
      else signed s (f.toNat + 2 ^ 52) ((e.toNat : Int) - 1075) := by
  have some : e ≠ -1#11 := fun same => finite (congrArg BitVec.toNat same)
  rw [UnpackedFloat.unpack]
  simp only [unpackExponent_packComponents, unpackMantissa_packComponents,
    unpackSign_packComponents, Sign.ofBitVec_toBitVec]
  rw [if_neg some]
  by_cases least : e = 0#11
  · subst least
    rw [if_pos rfl, if_pos (show (0#11).toNat = 0 from rfl)]
    by_cases zero : f = 0#52
    · subst zero
      rfl
    · have pos : 0 < f.toNat :=
        Nat.pos_of_ne_zero fun same => zero (BitVec.eq_of_toNat_eq same)
      rw [dif_neg zero, signed_of_pos s pos]
      rfl
  · have positive : e.toNat ≠ 0 := fun same => least (BitVec.eq_of_toNat_eq same)
    have implicit : (1#1 ++ f).toNat = f.toNat + 2 ^ 52 := by
      rw [BitVec.toNat_append, ← Nat.shiftLeft_add_eq_or_of_lt f.isLt]
      simp [Nat.shiftLeft_eq, Nat.add_comm]
    rw [if_neg least, if_neg positive, signed_of_pos s (by omega)]
    simp only [implicit]
    rfl

theorem valid_packComponents (s : Sign) {e : BitVec 11} (f : BitVec 52) (finite : e.toNat ≠ 2047) :
    Format.binary64.Valid (packComponents Format.binary64 s e f) := by
  refine ⟨fun full => absurd ?_ finite⟩
  rw [unpackExponent_packComponents] at full
  exact congrArg BitVec.toNat full

/-- A representable number has components; without a leading bit its exponent is the least one. -/
theorem exists_packComponents (s : Sign) (fits : Representable m q) :
    ∃ (e : BitVec 11) (f : BitVec 52), e.toNat ≠ 2047 ∧
      UnpackedFloat.unpack Format.binary64 (packComponents Format.binary64 s e f) =
        signed s m q := by
  obtain ⟨lt, least, greatest, full⟩ := fits
  by_cases normal : 2 ^ 52 ≤ m
  · have biased : (BitVec.ofNat 11 (q + 1075).toNat).toNat = (q + 1075).toNat := by
      rw [BitVec.toNat_ofNat, Nat.mod_eq_of_lt (by omega)]
    have finite : (BitVec.ofNat 11 (q + 1075).toNat).toNat ≠ 2047 := by omega
    have mantissa : m % 2 ^ 52 + 2 ^ 52 = m := by omega
    have exponent : ((q + 1075).toNat : Int) - 1075 = q := by omega
    refine ⟨_, BitVec.ofNat 52 m, finite, ?_⟩
    rw [unpack_packComponents s _ finite, if_neg (by omega), biased, BitVec.toNat_ofNat, mantissa,
      exponent]
  · have subnormal : q = -1074 := by omega
    refine ⟨0#11, BitVec.ofNat 52 m, by decide, ?_⟩
    rw [unpack_packComponents s _ (by decide), if_pos (show (0#11).toNat = 0 from rfl),
      BitVec.toNat_ofNat, Nat.mod_eq_of_lt (by omega), subnormal]

theorem unpack_pack (s : Sign) (fits : Representable m q) :
    UnpackedFloat.unpack Format.binary64 (UnpackedFloat.pack Format.binary64 (signed s m q)) =
      signed s m q := by
  obtain ⟨e, f, finite, value⟩ := exists_packComponents s fits
  rw [← value, pack_unpack_of_valid (valid_packComponents s f finite)]

end Parts

/-! ### Doubles -/

section Doubles

variable {x : Float}

def exponentOf (x : Float) : BitVec 11 := @unpackExponent Format.binary64 x.toBits.toBitVec

def fractionOf (x : Float) : BitVec 52 := @unpackMantissa Format.binary64 x.toBits.toBitVec

theorem toNat_exponentOf (x : Float) :
    (exponentOf x).toNat = x.toBits.toNat / 2 ^ 52 % 2 ^ 11 := by
  simp [exponentOf, unpackExponent, Nat.shiftRight_eq_div_pow]

theorem toNat_fractionOf (x : Float) : (fractionOf x).toNat = x.toBits.toNat % 2 ^ 52 := by
  simp [fractionOf, unpackMantissa]

theorem ofBitVec_unpackSign (x : Float) :
    Sign.ofBitVec (@unpackSign Format.binary64 x.toBits.toBitVec) = signOf x := by
  have width : x.toBits.toNat < 2 ^ 64 := x.toBits.toNat_lt
  have value :
      (@unpackSign Format.binary64 x.toBits.toBitVec).toNat = x.toBits.toNat / 2 ^ 63 % 2 := by
    simp [unpackSign, Nat.shiftRight_eq_div_pow]
  have set : @unpackSign Format.binary64 x.toBits.toBitVec = 0#1 ↔ isNegative x = false := by
    rw [← BitVec.toNat_inj, value, isNegative, decide_eq_false_iff_not]
    show x.toBits.toNat / 2 ^ 63 % 2 = 0 ↔ ¬ 2 ^ 63 ≤ x.toBits.toNat
    omega
  rw [Sign.ofBitVec, signOf]
  cases negative : isNegative x with
  | true => rw [if_neg (by simp [set, negative]), if_pos rfl]
  | false => rw [if_pos (set.2 negative), if_neg (by decide)]

theorem exponentOf_ne (finite : x.isFinite = true) : (exponentOf x).toNat ≠ 2047 := by
  intro full
  have all : @unpackExponent Format.binary64 x.toBits.toBitVec = -1#11 :=
    BitVec.eq_of_toNat_eq full
  have : (UnpackedFloat.unpack Format.binary64 x.toBits.toBitVec).isFinite = true := finite
  rw [UnpackedFloat.unpack] at this
  simp only at this
  rw [if_pos all] at this
  split at this <;> cases this

/-- The mantissa of a normal double has a leading bit that is not stored. -/
theorem magnitude_eq (x : Float) :
    magnitude x =
      if (exponentOf x).toNat = 0 then ((fractionOf x).toNat, -1074)
      else ((fractionOf x).toNat + 2 ^ 52, ((exponentOf x).toNat : Int) - 1075) := by
  rw [toNat_exponentOf, toNat_fractionOf]
  rfl

/-- The sign, the mantissa and the exponent of a finite double are what its bits mean. -/
theorem unpack_eq_signed (finite : x.isFinite = true) :
    x.toModel.unpack = signed (signOf x) (magnitude x).1 (magnitude x).2 := by
  have components : packComponents Format.binary64 (signOf x) (exponentOf x) (fractionOf x) =
      x.toBits.toBitVec := by
    rw [← ofBitVec_unpackSign]
    exact packComponents_unpackSign_unpackExponent_unpackMantissa _
  show UnpackedFloat.unpack Format.binary64 x.toBits.toBitVec = _
  rw [← components, unpack_packComponents _ _ (exponentOf_ne finite), magnitude_eq]
  split <;> rfl

theorem representable_magnitude (finite : x.isFinite = true) :
    Representable (magnitude x).1 (magnitude x).2 := by
  have exponent := exponentOf_ne finite
  have inWidth := (exponentOf x).isLt
  have short := (fractionOf x).isLt
  rw [magnitude_eq]
  split
  · exact ⟨by omega, by omega, by omega, Or.inr rfl⟩
  · exact ⟨by omega, by omega, by omega, Or.inl (by omega)⟩

/-- A finite double is made of its parts. -/
theorem ofModel_pack_signed (finite : x.isFinite = true) :
    .ofModel (.pack (signed (signOf x) (magnitude x).1 (magnitude x).2)) = x := by
  rw [← unpack_eq_signed finite, ← Float.toBits_inj, ← UInt64.toBitVec_inj]
  exact pack_unpack_of_valid x.toModel.valid

theorem abs_eq (finite : x.isFinite = true) :
    x.abs = .ofModel (.pack (signed .positive (magnitude x).1 (magnitude x).2)) := by
  show Float.ofModel (.pack x.toModel.unpack.abs) = _
  rw [unpack_eq_signed finite, abs_signed]

/-- The sign of a finite double can be taken off and put back. -/
theorem signed_abs (finite : x.isFinite = true) :
    (if isNegative x then -x.abs else x.abs) = x := by
  have whole := ofModel_pack_signed finite
  rw [abs_eq finite]
  cases negative : isNegative x with
  | true =>
    have inner := unpack_pack .positive (representable_magnitude finite)
    rw [signOf, negative, if_pos rfl] at whole
    rw [if_pos rfl]
    refine Eq.trans ?_ whole
    show Float.ofModel (.pack (UnpackedFloat.unpack Format.binary64
      (UnpackedFloat.pack Format.binary64
        (signed .positive (magnitude x).1 (magnitude x).2))).neg) = _
    rw [inner, neg_signed]
    rfl
  | false =>
    rwa [signOf, negative, if_neg (by decide)] at whole

end Doubles

end Seismogram.Double
