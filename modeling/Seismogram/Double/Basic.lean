/-!
# Doubles as exact numbers

A finite double is `m · 2 ^ q` with a sign. The functions here read that form off the bits, so that
rounding to whole numbers is done in exact integer arithmetic. Powers with an integer exponent are
taken by repeated squaring, one rounding for each product.
-/

namespace Seismogram.Double

/- Powers are those of the core library, whatever algebra is imported beside it. -/
attribute [local instance (2000)] instPowNat

def fractionBits : Nat := 52

def exponentBits : Nat := 11

/-- The mantissa `m` and exponent `q` with `|x| = m · 2 ^ q`, for a finite `x`. -/
def magnitude (x : Float) : Nat × Int :=
  let bits := x.toBits.toNat
  let exponent : Nat := bits / 2 ^ fractionBits % 2 ^ exponentBits
  let fraction := bits % 2 ^ fractionBits
  if exponent = 0 then (fraction, -1074)
  else (fraction + 2 ^ fractionBits, (exponent : Int) - 1075)

/-- Whether the sign bit is set; it is for `-0.0` as well. -/
def isNegative (x : Float) : Bool := decide (2 ^ (fractionBits + exponentBits) ≤ x.toBits.toNat)

/-- `m · 2 ^ q` as a fraction of naturals. -/
def ratio (m : Nat) (q : Int) : Nat × Nat :=
  if 0 ≤ q then (m * 2 ^ q.toNat, 1) else (m, 2 ^ (-q).toNat)

/-- The whole number nearest to a finite double, a half going away from zero. -/
def nearestInt (x : Float) : Int :=
  let (m, q) := magnitude x
  let (num, den) := ratio m q
  let size := (2 * num + den) / (2 * den)
  if isNegative x then -(size : Int) else size

def int64Bounds : Int × Int := (Int64.minValue.toInt, Int64.maxValue.toInt)

/-- The nearest 64-bit integer: values beyond the range go to its ends, and NaN to zero. -/
def toInt64 (x : Float) : Int :=
  if x.isNaN then 0
  else if x.isInf then if isNegative x then int64Bounds.1 else int64Bounds.2
  else max int64Bounds.1 (min (nearestInt x) int64Bounds.2)

/-- A count below `2 ^ 64` as the nearest double, ties to even. -/
def ofCount (n : Nat) : Float := n.toUInt64.toFloat

/-- One step of squaring for each binary digit of the exponent, the lowest digit first. -/
def powLoop (a : Float) (n : Nat) (acc : Float) : Float :=
  let acc := if n % 2 = 1 then acc * a else acc
  if _h : n / 2 = 0 then acc else powLoop (a * a) (n / 2) acc
termination_by n

/-- `a ^ n` by repeated squaring; for a negative exponent the reciprocal of the positive power. -/
def pow (a : Float) (n : Int) : Float :=
  let size := powLoop a n.natAbs 1.0
  if n < 0 then 1.0 / size else size

end Seismogram.Double
