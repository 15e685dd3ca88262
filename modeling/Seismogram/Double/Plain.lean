import Seismogram.Double.Shortest

/-!
# Doubles as plain text

A double is written with its shortest digits in positional notation, never with an exponent and
without a point when it is whole.
-/

namespace Seismogram

/-- Positional notation of a decimal, with no more zeros than the digits need. -/
def Decimal.plain (d : Decimal) : String :=
  let digits := toString d.digits
  if d.digits = 0 then "0"
  else if 0 ≤ d.exponent then digits ++ "".pushn '0' d.exponent.toNat
  else
    let places := (-d.exponent).toNat
    let padded := List.replicate (places + 1 - digits.length) '0' ++ digits.toList
    let whole := padded.length - places
    String.ofList (padded.take whole) ++ "." ++ String.ofList (padded.drop whole)

/-- The text of a double in messages: shortest digits in positional notation. -/
def Double.plain (x : Float) : String :=
  if x.isNaN then "NaN"
  else
    let size := if x.isInf then "inf" else (Decimal.ofDouble x).plain
    if Double.isNegative x then "-" ++ size else size

end Seismogram
