import Seismogram.Double.Shortest
import Seismogram.Json.Library
import Seismogram.Json.Writer
import Seismogram.Time.Rfc3339

/-!
# The standard library for stored forms

Texts are those of strict JSON, and instants are Internet timestamps. A double is written with its
shortest digits, those of moderate size without an exponent and never without a point or an
exponent; a number is read as the double nearest to it.
-/

namespace Seismogram.Json

/- Powers are those of the core library, whatever algebra is imported beside it. -/
attribute [local instance (2000)] instPowNat

namespace Number

/-- A number without its sign. -/
def size : Number → Decimal
  | .integer value => ⟨value.natAbs, 0⟩
  | .decimal _ digits places exponent => ⟨digits, exponent - places⟩

def isNegative : Number → Bool
  | .integer value => decide (value < 0)
  | .decimal negative .. => negative

/-- The nearest double, or `none` if the number is out of range. -/
def nearest? (n : Number) : Option Float :=
  let x := n.size.toDouble
  if x.isInf then none else some (if n.isNegative then -x else x)

/-- A decimal with its point set: within the digits or next to them where sixteen digits in front of
it and five zeros behind it suffice, and otherwise behind the first digit, with an exponent. -/
def layOut (negative : Bool) (d : Decimal) : Number :=
  let count := Decimal.digitCount d.digits
  let point : Int := count + d.exponent
  if 0 ≤ d.exponent ∧ point ≤ 16 then
    .decimal negative (d.digits * 10 ^ (d.exponent.toNat + 1)) 1 0
  else if d.exponent < 0 ∧ -5 < point ∧ point ≤ 16 then
    .decimal negative d.digits d.exponent.natAbs 0
  else .decimal negative d.digits (count - 1) (point - 1)

/-- A finite double by its shortest digits. Where its layout would be read as another double, the
digits stand alone in front of the exponent. -/
def shortest (x : Float) : Number :=
  let d := Decimal.ofDouble x
  let n := layOut (Double.isNegative x) d
  if n.size.toDouble.toBits == d.toDouble.toBits then n
  else .decimal (Double.isNegative x) d.digits 0 d.exponent

end Number

/-- The library that reads back whatever it writes. -/
def Library.standard : Library where
  print := Value.toText
  parse := Value.ofText?
  complaint _ := "expected another value"
  ofDouble := Number.shortest
  toDouble? := Number.nearest?
  ofInstant := Time.Rfc3339.write
  toInstant? := Time.Rfc3339.read?

end Seismogram.Json
