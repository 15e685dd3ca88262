import Seismogram.Proofs.Double.Decimals

/-!
# Rounded doubles

Rounding takes a number to one of nearly its size, and never to zero if the number is not too small
for that. So a count of at least one over a finite double above zero is above zero again or out of
range: no quotient of the two is small enough to vanish.
-/

namespace Seismogram.Double

open Float.Model
open Float.Model.UnpackedFloat

attribute [local instance (2000)] instPowNat

/-! ### Rounding -/

theorem mantissa_shiftRight (em : ExtendedMantissa) (k : Nat) :
    (em >>> k).mantissa = em.mantissa / 2 ^ k := by
  induction k with
  | zero => exact (Nat.div_one _).symm
  | succ k ih =>
    show (em >>> k).mantissa / 2 = _
    rw [ih, Nat.div_div_eq_div_mul, Nat.pow_succ]

theorem mantissa_ofMantissaAndAccuracy (m : Nat) (accuracy : Accuracy) :
    (ExtendedMantissa.ofMantissaAndAccuracy m accuracy).mantissa = m := by
  cases accuracy with
  | exact => rfl
  | inexact side => cases side <;> rfl

/-- Rounding takes a mantissa or the next one. -/
theorem roundedMantissa_bounds (em : ExtendedMantissa) :
    em.mantissa ≤ em.roundedMantissa ∧ em.roundedMantissa ≤ em.mantissa + 1 := by
  obtain ⟨m, round, sticky⟩ := em
  cases round <;> cases sticky <;>
    simp [ExtendedMantissa.roundedMantissa, ExtendedMantissa.accuracy,
      Accuracy.roundToNearestEven]
  omega

/-- The mantissas and exponents of rounded numbers, those that are out of range included. -/
structure Rounded (m : Nat) (q : Int) : Prop where
  pos : 0 < m
  lt : m < 2 ^ 53
  least : -1074 ≤ q
  full : 2 ^ 52 ≤ m ∨ q = -1074

section Rounding

variable {m : Nat} {q : Int}

theorem Rounded.representable (rounded : Rounded m q) (inRange : q ≤ 971) : Representable m q :=
  ⟨rounded.lt, rounded.least, inRange, rounded.full⟩

theorem targetExponent_eq (m : Nat) (q : Int) :
    Format.binary64.targetExponent (totalExponent m q) = max ((m.log2 : Int) + q - 52) (-1074) := by
  show max ((m.log2 : Int) + 1 + q - 53) (-1074) = _
  omega

/-- Bits are shifted out up to the exponent that a number is rounded to. -/
theorem shiftToTargetExponent_of_target {k : Nat} (accuracy : Accuracy)
    (target : max ((m.log2 : Int) + q - 52) (-1074) = q + k) :
    shiftToTargetExponent Format.binary64 m q accuracy =
      (ExtendedMantissa.ofMantissaAndAccuracy m accuracy >>> k, q + k) := by
  have shift : (q + (k : Int) - q).toNat = k := by omega
  rw [shiftToTargetExponent, targetExponent_eq, target, shiftToExponent]
  simp only [shift]

/-- A mantissa that is short enough stays as it is. -/
theorem shiftToTargetExponent_of_lt (lt : m < 2 ^ 53) (pos : 0 < m) (least : -1074 ≤ q) :
    shiftToTargetExponent Format.binary64 m q .exact =
      (.ofMantissaAndAccuracy m .exact, q) := by
  have short := (Nat.log2_lt (k := 53) (by omega)).2 lt
  have shift : (max ((m.log2 : Int) + q - 52) (-1074) - q).toNat = 0 := by omega
  rw [shiftToTargetExponent]
  simp only [targetExponent_eq, shiftToExponent, shift]
  exact congrArg (Prod.mk _) (Int.add_zero q)

/-- A mantissa that has grown by a bit loses its last one. -/
theorem shiftToTargetExponent_carry (least : -1074 ≤ q) :
    shiftToTargetExponent Format.binary64 (2 ^ 53) q .exact =
      (.ofMantissaAndAccuracy (2 ^ 52) .exact, q + 1) := by
  refine shiftToTargetExponent_of_target (k := 1) .exact ?_
  rw [Nat.log2_two_pow]
  omega

theorem roundWithAccuracy_eq {em : ExtendedMantissa} {q' : Int} {m₂ : Nat} {q₂ : Int}
    (s : Sign) {accuracy : Accuracy}
    (first : shiftToTargetExponent Format.binary64 m q accuracy = (em, q'))
    (second : shiftToTargetExponent Format.binary64 em.roundedMantissa q' .exact =
      (.ofMantissaAndAccuracy m₂ .exact, q₂)) :
    roundWithAccuracy Format.binary64 s m q accuracy = signed s m₂ q₂ := by
  rw [roundWithAccuracy, first]
  simp only [second]
  rfl

/-- A number is rounded to one of nearly its size, and not to zero unless it is too small. -/
theorem exists_roundWithAccuracy (s : Sign) (accuracy : Accuracy) (pos : 0 < m)
    (long : 52 ≤ m.log2 ∨ q ≤ -1074) (large : -1074 ≤ m.log2 + q) :
    ∃ m' q', roundWithAccuracy Format.binary64 s m q accuracy = signed s m' q' ∧ Rounded m' q' ∧
      m.log2 + q ≤ m'.log2 + q' ∧ m'.log2 + q' ≤ m.log2 + q + 1 := by
  obtain ⟨k, target⟩ : ∃ k : Nat, max ((m.log2 : Int) + q - 52) (-1074) = q + k :=
    ⟨(max ((m.log2 : Int) + q - 52) (-1074) - q).toNat, by omega⟩
  have first := shiftToTargetExponent_of_target accuracy target
  -- The mantissa without the bits that are shifted out has `size + 1` bits, which is enough.
  obtain ⟨size, bits⟩ : ∃ size : Nat, m.log2 = size + k := ⟨m.log2 - k, by omega⟩
  have lower : 2 ^ size ≤ m / 2 ^ k := by
    rw [Nat.le_div_iff_mul_le (Nat.two_pow_pos k), ← Nat.pow_add, ← bits]
    exact Nat.log2_self_le (Nat.pos_iff_ne_zero.1 pos)
  have upper : m / 2 ^ k < 2 ^ (size + 1) := by
    rw [Nat.div_lt_iff_lt_mul (Nat.two_pow_pos k), ← Nat.pow_add, Nat.add_right_comm, ← bits]
    exact Nat.lt_log2_self
  obtain ⟨notLess, notMore⟩ :=
    roundedMantissa_bounds (ExtendedMantissa.ofMantissaAndAccuracy m accuracy >>> k)
  rw [mantissa_shiftRight, mantissa_ofMantissaAndAccuracy] at notLess notMore
  have narrow : 2 ^ (size + 1) ≤ 2 ^ 53 := Nat.pow_le_pow_right (by omega) (by omega)
  have positive : 0 < 2 ^ size := Nat.two_pow_pos size
  generalize rounded : (ExtendedMantissa.ofMantissaAndAccuracy m accuracy >>> k).roundedMantissa = r
    at notLess notMore
  by_cases lt : r < 2 ^ 53
  · have least := (Nat.le_log2 (n := r) (k := size) (by omega)).2 (by omega)
    have greatest := (Nat.log2_lt (n := r) (k := size + 2) (by omega)).2
      (by rw [Nat.pow_succ]; omega)
    have full : 2 ^ 52 ≤ r ∨ q + (k : Int) = -1074 := by
      by_cases normal : size = 52
      · exact .inl (normal ▸ Nat.le_trans lower notLess)
      · exact .inr (by omega)
    refine ⟨r, q + k, roundWithAccuracy_eq s first ?_, ⟨by omega, lt, by omega, full⟩, by omega,
      by omega⟩
    rw [rounded]
    exact shiftToTargetExponent_of_lt lt (by omega) (by omega)
  · obtain rfl : r = 2 ^ 53 := by omega
    have top : size = 52 := by
      by_contra other
      have : 2 ^ (size + 1) ≤ 2 ^ 52 := Nat.pow_le_pow_right (by omega) (by omega)
      omega
    have bit : (2 ^ 52 : Nat).log2 = 52 := Nat.log2_two_pow
    refine ⟨2 ^ 52, q + k + 1, roundWithAccuracy_eq s first ?_,
      ⟨Nat.two_pow_pos 52, by omega, by omega, .inl (Nat.le_refl _)⟩, by omega, by omega⟩
    rw [rounded]
    exact shiftToTargetExponent_carry (by omega)

theorem exists_ofNat (pos : 0 < m) :
    ∃ m' q', UnpackedFloat.ofNat Format.binary64 m = signed .positive m' q' ∧ Rounded m' q' ∧
      m.log2 ≤ m'.log2 + q' ∧ m'.log2 + q' ≤ (m.log2 : Int) + 1 := by
  have above : compare (m : Int) 0 = .gt := Int.compare_eq_gt.2 (by omega)
  obtain ⟨j, zeros⟩ : ∃ j : Nat, (0 - max ((m.log2 : Int) + 0 - 52) (-1074)).toNat = j := ⟨_, rfl⟩
  have lengthened : (m * 2 ^ j).log2 = m.log2 + j := log2_mul_two_pow pos j
  rw [UnpackedFloat.ofNat, UnpackedFloat.ofInt, UnpackedFloat.normalize]
  simp only [above, Int.toNat_natCast, UnpackedFloat.round, targetExponent_eq, decreaseExponent,
    zeros, Nat.shiftLeft_eq]
  obtain ⟨m', q', rounded, fits, least, greatest⟩ := exists_roundWithAccuracy .positive .exact
    (q := 0 - j) (Nat.mul_pos pos (Nat.two_pow_pos j)) (by omega) (by omega)
  exact ⟨m', q', rounded, fits, by omega, by omega⟩

/-- The quotient of a number that is at least one by any number is not rounded to zero. -/
theorem exists_div {m₁ m₂ : Nat} {q₁ q₂ : Int} (first : Rounded m₁ q₁) (one : 0 ≤ m₁.log2 + q₁)
    (second : Representable m₂ q₂) (pos : 0 < m₂) :
    ∃ m q, UnpackedFloat.div Format.binary64 (signed .positive m₁ q₁) (signed .positive m₂ q₂) =
      signed .positive m q ∧ Rounded m q := by
  have short := (Nat.log2_lt (k := 53) (by omega)).2 second.lt
  have greatest := second.greatest
  have least₁ := Nat.log2_self_le (Nat.pos_iff_ne_zero.1 first.pos)
  have greatest₂ := Nat.lt_log2_self (n := m₂)
  -- The quotient is taken with so many places that it has enough digits for rounding.
  obtain ⟨places, exponent, enough⟩ : ∃ places : Nat,
      min (q₁ - q₂) (max ((m₁.log2 : Int) + 1 + q₁ - (m₂.log2 + 1 + q₂) - 53) (-1074)) =
        q₁ - q₂ - places ∧
      (m₂.log2 + 53 ≤ m₁.log2 + places ∨ q₁ - q₂ - places ≤ -1074) :=
    ⟨(q₁ - q₂ - min (q₁ - q₂)
      (max ((m₁.log2 : Int) + 1 + q₁ - (m₂.log2 + 1 + q₂) - 53) (-1074))).toNat, by omega, by omega⟩
  obtain ⟨size, bits⟩ : ∃ size : Nat, m₁.log2 + places = size + (m₂.log2 + 1) :=
    ⟨m₁.log2 + places - (m₂.log2 + 1), by omega⟩
  have large : 2 ^ size ≤ (m₁ * 2 ^ places) / m₂ := by
    rw [Nat.le_div_iff_mul_le pos]
    calc 2 ^ size * m₂ ≤ 2 ^ size * 2 ^ (m₂.log2 + 1) := Nat.mul_le_mul_left _ greatest₂.le
      _ = 2 ^ m₁.log2 * 2 ^ places := by rw [← Nat.pow_add, ← Nat.pow_add, bits]
      _ ≤ m₁ * 2 ^ places := Nat.mul_le_mul_right _ least₁
  have positive : 0 < (m₁ * 2 ^ places) / m₂ := Nat.lt_of_lt_of_le (Nat.two_pow_pos size) large
  have digits := (Nat.le_log2 (Nat.pos_iff_ne_zero.1 positive)).2 large
  have shift : (q₁ - q₂ - (q₁ - q₂ - (places : Int))).toNat = places := by omega
  rw [signed_of_pos _ first.pos, signed_of_pos _ pos, UnpackedFloat.div, divCore]
  simp only [show Format.binary64.targetExponent (totalExponent m₁ q₁ - totalExponent m₂ q₂) =
    max ((m₁.log2 : Int) + 1 + q₁ - (m₂.log2 + 1 + q₂) - 53) (-1074) from rfl, exponent, shift,
    Nat.shiftLeft_eq]
  obtain ⟨m, q, rounded, fits, -⟩ := exists_roundWithAccuracy .positive
    (accuracyOfFraction (m₁ * 2 ^ places % m₂) m₂) positive (q := q₁ - q₂ - places)
    (by omega) (by omega)
  exact ⟨m, q, rounded, fits⟩

theorem pack_of_overflow (s : Sign) (rounded : Rounded m q) (overflow : 971 < q) :
    UnpackedFloat.pack Format.binary64 (signed s m q) = packedInfinity Format.binary64 s := by
  rw [signed_of_pos s rounded.pos, UnpackedFloat.pack]
  refine if_pos ?_
  show 2 ^ 11 ≤ (q + (1023 : Nat) + (52 : Nat)).toNat + 1
  omega

end Rounding

/-! ### Positive doubles -/

structure PositiveFinite (x : Float) : Prop where
  finite : x.isFinite = true
  positive : 0.0 < x

variable {x y : Float}

theorem unpack_zero : (0.0 : Float).toModel.unpack = .zero .positive := rfl

theorem lt_iff : x < y ↔ UnpackedFloat.lt x.toModel.unpack y.toModel.unpack = true := by
  show decide (x.toModel < y.toModel) = true ↔ _
  rw [decide_eq_true_iff]
  rfl

theorem le_iff : x ≤ y ↔ UnpackedFloat.le x.toModel.unpack y.toModel.unpack = true := by
  show decide (x.toModel ≤ y.toModel) = true ↔ _
  rw [decide_eq_true_iff]
  rfl

/-- Of the finite doubles those are above zero that are not below or equal to it. -/
theorem positiveFinite_iff : PositiveFinite x ↔ ¬ (!x.isFinite || decide (x ≤ 0.0)) = true := by
  have apart (finite : x.toModel.unpack.isFinite = true) :
      UnpackedFloat.lt (.zero .positive) x.toModel.unpack =
        !UnpackedFloat.le x.toModel.unpack (.zero .positive) := by
    cases value : x.toModel.unpack with
    | zero s => rfl
    | finite s m q pos => cases s <;> rfl
    | infinity | notANumber => rw [value] at finite; cases finite
  rw [Bool.or_eq_true, Bool.not_eq_true', decide_eq_true_iff, not_or, Bool.not_eq_false, le_iff,
    unpack_zero]
  constructor
  · rintro ⟨finite, positive⟩
    rw [lt_iff, unpack_zero, apart finite] at positive
    exact ⟨finite, by simpa using positive⟩
  · rintro ⟨finite, positive⟩
    exact ⟨finite, by rw [lt_iff, unpack_zero, apart finite]; simpa using positive⟩

theorem isFinite_iff : x.isFinite = true ↔ x.toModel.unpack.isFinite = true := Iff.rfl

/-- A finite double above zero has a positive mantissa and no sign. -/
theorem PositiveFinite.exists_unpack (h : PositiveFinite x) :
    ∃ m q, x.toModel.unpack = signed .positive m q ∧ 0 < m ∧ Representable m q := by
  have parts := unpack_eq_signed h.finite
  have positive := h.positive
  rw [lt_iff, unpack_zero, parts, signed] at positive
  by_cases zero : (magnitude x).1 = 0
  · rw [dif_pos zero] at positive
    cases positive
  · rw [dif_neg zero] at positive
    refine ⟨_, _, ?_, Nat.pos_of_ne_zero zero, representable_magnitude h.finite⟩
    rw [parts]
    cases sign : signOf x with
    | positive => rfl
    | negative => rw [sign] at positive; cases positive

theorem positiveFinite_of_unpack {m : Nat} {q : Int}
    (value : x.toModel.unpack = signed .positive m q) (pos : 0 < m) : PositiveFinite x := by
  rw [signed_of_pos _ pos] at value
  refine ⟨?_, ?_⟩
  · rw [isFinite_iff, value]
    rfl
  · rw [lt_iff, unpack_zero, value]
    rfl

/-- What a rounded number is packed into is itself, or infinite. -/
theorem unpack_pack_rounded {m : Nat} {q : Int} (s : Sign) (rounded : Rounded m q) :
    UnpackedFloat.unpack Format.binary64 (UnpackedFloat.pack Format.binary64 (signed s m q)) =
      if q ≤ 971 then signed s m q else .infinity s := by
  split
  · next inRange => exact unpack_pack s (rounded.representable inRange)
  · next overflow =>
    rw [pack_of_overflow s rounded (Int.not_le.1 overflow)]
    cases s <;> rfl

/-- The double of a positive count is at least one. -/
theorem exists_unpack_ofCount {n : Nat} (pos : 0 < n) (fits : n < UInt64.size) :
    ∃ m q, (ofCount n).toModel.unpack = signed .positive m q ∧ Rounded m q ∧ 0 ≤ m.log2 + q ∧
      q ≤ 971 := by
  have count : n.toUInt64.toNat = n := by
    rw [Nat.toUInt64, UInt64.toNat_ofNat', Nat.mod_eq_of_lt fits]
  have size := (Nat.log2_lt (k := 64) (by omega)).2 fits
  obtain ⟨m, q, value, rounded, least, greatest⟩ := exists_ofNat pos
  refine ⟨m, q, ?_, rounded, by omega, by omega⟩
  show UnpackedFloat.unpack Format.binary64 (UnpackedFloat.pack Format.binary64
    (UnpackedFloat.ofNat Format.binary64 n.toUInt64.toNat)) = _
  rw [count, value, unpack_pack_rounded _ rounded, if_pos (by omega)]

/-- A positive count over a finite double above zero is above zero, if it is in range. -/
theorem positiveFinite_div {n : Nat} (pos : 0 < n) (fits : n < UInt64.size) (h : PositiveFinite y)
    (finite : (ofCount n / y).isFinite = true) : PositiveFinite (ofCount n / y) := by
  obtain ⟨m₁, q₁, count, first, one, -⟩ := exists_unpack_ofCount pos fits
  obtain ⟨m₂, q₂, divisor, positive, second⟩ := h.exists_unpack
  obtain ⟨m, q, quotient, rounded⟩ := exists_div first one second positive
  have value : (ofCount n / y).toModel.unpack =
      if q ≤ 971 then signed .positive m q else .infinity .positive := by
    show UnpackedFloat.unpack Format.binary64 (UnpackedFloat.pack Format.binary64
      (UnpackedFloat.div Format.binary64 (ofCount n).toModel.unpack y.toModel.unpack)) = _
    rw [count, divisor, quotient, unpack_pack_rounded _ rounded]
  split at value
  · exact positiveFinite_of_unpack value rounded.pos
  · rw [isFinite_iff, value] at finite
    cases finite

theorem toInt64_zero (s : Sign) : toInt64 (.ofModel (.pack (.zero s))) = 0 := by
  cases s <;> decide +kernel

theorem mul_zero_cases (u : UnpackedFloat) :
    (∃ s, UnpackedFloat.mul Format.binary64 (.zero .positive) u = .zero s) ∨
      UnpackedFloat.mul Format.binary64 (.zero .positive) u = .notANumber := by
  cases u with
  | zero s | finite s => exact .inl ⟨.positive * s, rfl⟩
  | infinity | notANumber => exact .inr rfl

/-- No time has passed before the first sample, whatever the time between samples is. -/
theorem toInt64_zero_mul (y : Float) : toInt64 (ofCount 0 * y) = 0 := by
  have product : ofCount 0 * y =
      .ofModel (.pack (UnpackedFloat.mul Format.binary64 (.zero .positive) y.toModel.unpack)) := rfl
  rw [product]
  obtain ⟨s, zero⟩ | undefined := mul_zero_cases y.toModel.unpack
  · rw [zero, toInt64_zero]
  · rw [undefined]
    rfl

end Seismogram.Double
