import Seismogram.Double.Shortest
import Seismogram.Proofs.Double.Binary

/-!
# Decimals of doubles read back

The decimal written for a finite double names that double again. For the shortest decimals this is
how they are chosen; behind them stands the exact expansion, and an exact number needs no rounding,
whether it is scaled by a power of two or divided by a power of ten.
-/

namespace Seismogram

open Float.Model
open Float.Model.UnpackedFloat
open Double

attribute [local instance (2000)] instPowNat

namespace Double

section Rounding

variable {m : Nat} {q : Int}

/-- Zeros shifted out of a mantissa leave no trace. -/
theorem shiftRight_zeros (m j : Nat) :
    ExtendedMantissa.ofMantissaAndAccuracy (m * 2 ^ j) .exact >>> j =
      .ofMantissaAndAccuracy m .exact := by
  induction j generalizing m with
  | zero =>
    rw [Nat.pow_zero, Nat.mul_one]
    rfl
  | succ j ih =>
    have halved : ExtendedMantissa.shiftRightOne (.ofMantissaAndAccuracy (m * 2) .exact) =
        .ofMantissaAndAccuracy m .exact := by
      simp [ExtendedMantissa.shiftRightOne, ExtendedMantissa.ofMantissaAndAccuracy]
    have once : m * 2 ^ (j + 1) = m * 2 * 2 ^ j := by
      rw [Nat.pow_succ]
      ac_rfl
    show ExtendedMantissa.shiftRightOne
      ((ExtendedMantissa.ofMantissaAndAccuracy _ .exact) >>> j) = _
    rw [once, ih, halved]

theorem log2_mul_two_pow (pos : 0 < m) (j : Nat) : (m * 2 ^ j).log2 = m.log2 + j := by
  induction j with
  | zero => rw [Nat.pow_zero, Nat.mul_one, Nat.add_zero]
  | succ j ih =>
    have nonzero : m * 2 ^ j ≠ 0 := Nat.pos_iff_ne_zero.1 (Nat.mul_pos pos (Nat.two_pow_pos j))
    rw [Nat.pow_succ, ← Nat.mul_assoc, Nat.mul_comm _ 2, Nat.log2_two_mul nonzero, ih,
      Nat.add_assoc]

/-- The exponent of a representable number is the one it is rounded to, however it is scaled. -/
theorem targetExponent_scaled (fits : Representable m q) (pos : 0 < m) (j : Nat) :
    Format.binary64.targetExponent (totalExponent (m * 2 ^ j) (q - j)) = q := by
  obtain ⟨lt, least, greatest, full⟩ := fits
  have below := (Nat.log2_lt (k := 53) (by omega)).2 lt
  have atLeast := Nat.le_log2 (k := 52) (n := m) (by omega)
  show max (((m * 2 ^ j).log2 : Int) + 1 + (q - j) - 53) (-1074) = q
  rw [log2_mul_two_pow pos]
  omega

theorem shiftToTargetExponent_scaled (fits : Representable m q) (pos : 0 < m) (j : Nat) :
    shiftToTargetExponent Format.binary64 (m * 2 ^ j) (q - j) .exact =
      (.ofMantissaAndAccuracy m .exact, q) := by
  have shift : (q - (q - (j : Int))).toNat = j := by omega
  rw [shiftToTargetExponent]
  simp only [targetExponent_scaled fits pos]
  rw [shiftToExponent]
  simp only [shift, shiftRight_zeros]
  congr 1
  omega

/-- Rounding keeps a representable number, however it is scaled. -/
theorem roundWithAccuracy_scaled (s : Sign) (fits : Representable m q) (pos : 0 < m) (j : Nat) :
    roundWithAccuracy Format.binary64 s (m * 2 ^ j) (q - j) .exact = signed s m q := by
  have again := shiftToTargetExponent_scaled fits pos 0
  rw [Nat.pow_zero, Nat.mul_one, Int.natCast_zero, Int.sub_zero] at again
  rw [roundWithAccuracy, shiftToTargetExponent_scaled fits pos]
  simp only [show (ExtendedMantissa.ofMantissaAndAccuracy m .exact).roundedMantissa = m from rfl,
    again, show (ExtendedMantissa.ofMantissaAndAccuracy m .exact).mantissa = m from rfl]
  rfl

/-- A quotient by a power of ten is computed with at least as many binary places as it has. -/
theorem targetExponent_div_le {k : Nat} (fits : Representable m (-k)) (pos : 0 < m) :
    Format.binary64.targetExponent
      (totalExponent (m * 5 ^ k) 0 - totalExponent (2 ^ k * 5 ^ k) 0) ≤ -k := by
  have bits : (Format.binary64.mantissaBits : Int) = 53 := rfl
  have smallest : Format.binary64.minExponent = -1074 := rfl
  have least := fits.least
  have fives : 0 < 5 ^ k := Nat.pow_pos (by omega)
  have quotient : (m * 5 ^ k).log2 < 53 + ((5 ^ k).log2 + 1) := by
    rw [Nat.log2_lt (Nat.pos_iff_ne_zero.1 (Nat.mul_pos pos fives)), Nat.pow_add]
    exact Nat.mul_lt_mul'' fits.lt Nat.lt_log2_self
  rw [Format.targetExponent, totalExponent, totalExponent, Nat.mul_comm (2 ^ k),
    log2_mul_two_pow fives, bits, smallest]
  omega

/-- A number with a binary fraction is a quotient by a power of ten, and dividing gives it back. -/
theorem div_pow_ten {k : Nat} (fits : Representable m (-k)) (pos : 0 < m)
    (first : 0 < m * 5 ^ k) (second : 0 < 10 ^ k) :
    UnpackedFloat.div Format.binary64 (.finite .positive (m * 5 ^ k) 0 first)
      (.finite .positive (10 ^ k) 0 second) = signed .positive m (-k) := by
  have ten : 10 ^ k = 2 ^ k * 5 ^ k := by rw [← Nat.mul_pow]
  have target := targetExponent_div_le fits pos
  rw [UnpackedFloat.div, divCore]
  simp only [ten] at second ⊢
  generalize Format.binary64.targetExponent _ = places at target ⊢
  obtain ⟨extra, rfl⟩ : ∃ extra : Nat, places = -(k : Int) - extra :=
    ⟨(-(k : Int) - places).toNat, by omega⟩
  have least : min (0 - 0) (-(k : Int) - extra) = -(k : Int) - extra := by omega
  have shift : (0 - 0 - (-(k : Int) - extra)).toNat = extra + k := by omega
  have scaled : (m * 5 ^ k) <<< (extra + k) = m * 2 ^ extra * (2 ^ k * 5 ^ k) := by
    rw [Nat.shiftLeft_eq, Nat.pow_add]
    ac_rfl
  rw [least, shift, scaled, Nat.mul_div_cancel _ second, Nat.mul_mod_left]
  exact roundWithAccuracy_scaled .positive fits pos extra

/-- A whole number that is representable as it stands is converted without rounding. -/
theorem ofNat_representable (fits : Representable m 0) (pos : 0 < m) :
    UnpackedFloat.ofNat Format.binary64 m = signed .positive m 0 := by
  have target := targetExponent_scaled fits pos 0
  have rounded := roundWithAccuracy_scaled .positive fits pos 0
  rw [Nat.pow_zero, Nat.mul_one, Int.natCast_zero, Int.sub_zero] at target rounded
  have above : compare (m : Int) 0 = .gt := Int.compare_eq_gt.2 (by omega)
  rw [UnpackedFloat.ofNat, UnpackedFloat.ofInt, UnpackedFloat.normalize]
  simp only [above, Int.toNat_natCast, UnpackedFloat.round, target]
  exact rounded

/-- Multiplying by one, which is `2 ^ 52 · 2 ^ -52`, only scales. -/
theorem mul_by_one (fits : Representable m q) (pos : 0 < m) (second : 0 < 2 ^ 52) :
    UnpackedFloat.mul Format.binary64 (signed .positive m q)
      (.finite .positive (2 ^ 52) (-52) second) = signed .positive m q := by
  rw [signed_of_pos _ pos, UnpackedFloat.mul, ← signed_of_pos]
  exact roundWithAccuracy_scaled .positive fits pos 52

/-- A whole number is read as it stands, with its zeros. -/
theorem ofScientific_whole {k : Nat} (fits : Representable m k) (pos : 0 < m) :
    UnpackedFloat.ofScientific Format.binary64 (m * 2 ^ k) 0 = signed .positive m k := by
  have positive : m * 2 ^ k ≠ 0 := Nat.pos_iff_ne_zero.1 (Nat.mul_pos pos (Nat.two_pow_pos k))
  have shifted : (m * 2 ^ k) <<< Format.binary64.mantissaBits * 10 ^ (0 : Int).toNat =
      m * 2 ^ (k + 53) := by
    rw [Nat.shiftLeft_eq, Int.toNat_zero, Nat.pow_zero, Nat.mul_one, Nat.mul_assoc, ← Nat.pow_add]
    rfl
  have limit : 2 ^ Format.binary64.exponentBits = (2048 : Int) := rfl
  have exponent : -(Format.binary64.mantissaBits : Int) + 0 = k - (k + 53 : Nat) := by
    show (-53 + 0 : Int) = _
    omega
  rw [UnpackedFloat.ofScientific, dif_neg positive, if_neg (by omega), if_neg (by omega),
    if_pos (by omega), UnpackedFloat.mul]
  simp only [shifted, exponent]
  exact roundWithAccuracy_scaled .positive fits pos (k + 53)

/-- A binary fraction is read by dividing by a power of ten. -/
theorem ofScientific_fraction {k : Nat} (fits : Representable m (-k)) (pos : 0 < m) (part : 0 < k) :
    UnpackedFloat.ofScientific Format.binary64 (m * 5 ^ k) (-k) = signed .positive m (-k) := by
  have positive : m * 5 ^ k ≠ 0 :=
    Nat.pos_iff_ne_zero.1 (Nat.mul_pos pos (Nat.pow_pos (by omega)))
  have least := fits.least
  have limit : 2 ^ Format.binary64.exponentBits = (2048 : Int) := rfl
  have exponent : (- -(k : Int)).toNat = k := by omega
  rw [UnpackedFloat.ofScientific, dif_neg positive, if_neg (by omega), if_neg (by omega),
    if_neg (by omega)]
  simp only [exponent]
  exact div_pow_ten fits pos _ _

end Rounding
end Double

namespace Decimal

variable {m : Nat} {q : Int}

theorem toDouble_whole (fits : Representable m 0) (pos : 0 < m) :
    (⟨m, 0⟩ : Decimal).toDouble = .ofModel (.pack (signed .positive m 0)) := by
  have lt := fits.lt
  have count : m.toUInt64.toNat = m := by
    rw [Nat.toUInt64, UInt64.toNat_ofNat', Nat.mod_eq_of_lt (by omega)]
  have one : Float.exactlyRepresentablePowersOfTen[0].toModel.unpack =
      .finite .positive (2 ^ 52) (-52) (Nat.two_pow_pos 52) := rfl
  have converted : m.toUInt64.toFloat.toModel.unpack = signed .positive m 0 := by
    show UnpackedFloat.unpack Format.binary64 (UnpackedFloat.pack Format.binary64
      (UnpackedFloat.ofNat Format.binary64 m.toUInt64.toNat)) = _
    rw [count, ofNat_representable fits pos, unpack_pack .positive fits]
  rw [toDouble, Float.ofScientific, dif_pos ⟨lt, Nat.zero_le 22⟩]
  show Float.ofModel (.pack (UnpackedFloat.mul Format.binary64 m.toUInt64.toFloat.toModel.unpack
    Float.exactlyRepresentablePowersOfTen[0].toModel.unpack)) = _
  rw [one, converted, mul_by_one fits pos]

/-- A decimal with many digits or a large exponent is read by one multiplication or division. -/
theorem toDouble_of_long {d : Decimal} (long : d.digits < 2 ^ 53 → 22 < d.exponent.natAbs) :
    d.toDouble =
      .ofModel (.pack (UnpackedFloat.ofScientific Format.binary64 d.digits d.exponent)) := by
  have exponent : (if decide (d.exponent < 0) = true then Int.negOfNat d.exponent.natAbs
      else Int.ofNat d.exponent.natAbs) = d.exponent := by
    simp only [decide_eq_true_eq, Int.negOfNat_eq, Int.ofNat_eq_natCast]
    omega
  rw [toDouble, Float.ofScientific, dif_neg fun short => by have := long short.1; omega]
  simp only [exponent]
  rfl

theorem toDouble_exact (fits : Representable m q) (pos : 0 < m) :
    (exact m q).toDouble = .ofModel (.pack (signed .positive m q)) := by
  have full := fits.full
  by_cases whole : 0 ≤ q
  · obtain ⟨k, rfl⟩ : ∃ k : Nat, q = k := ⟨q.toNat, by omega⟩
    rw [exact, if_pos whole, Int.toNat_natCast]
    cases k with
    | zero =>
      rw [Nat.pow_zero, Nat.mul_one]
      exact toDouble_whole fits pos
    | succ k =>
      have twice : m * 2 ≤ m * 2 ^ (k + 1) :=
        Nat.mul_le_mul_left m (Nat.le_self_pow (Nat.succ_ne_zero k) 2)
      rw [toDouble_of_long fun short => absurd short (by simp only; omega)]
      rw [ofScientific_whole fits pos]
  · obtain ⟨k, rfl⟩ : ∃ k : Nat, q = -(k : Int) := ⟨(-q).toNat, by omega⟩
    have fives : m * 5 ≤ m * 5 ^ k :=
      Nat.mul_le_mul_left m (Nat.le_self_pow (by omega) 5)
    rw [exact, if_neg whole, Int.neg_neg, Int.toNat_natCast,
      toDouble_of_long fun short => by simp only at short ⊢; omega,
      ofScientific_fraction fits pos (by omega)]

/-- What is written for a positive double reads back as it. -/
theorem toDouble_ofDouble {x : Float} (finite : x.isFinite = true) :
    (ofDouble x).toDouble = x.abs := by
  have fits := representable_magnitude finite
  by_cases zero : (magnitude x).1 = 0
  · have digits : ofDouble x = ⟨0, 0⟩ := by
      rw [ofDouble]
      simp only [zero, ↓reduceIte]
    rw [digits, abs_eq finite, zero]
    rfl
  · rcases ofDouble_readsAs_or_exact x zero with reads | digits
    · exact Float.toBits_inj.1 (beq_iff_eq.1 reads)
    · rw [digits, toDouble_exact fits (Nat.pos_of_ne_zero zero), abs_eq finite]

end Decimal

end Seismogram
