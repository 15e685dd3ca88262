import Seismogram.Text.Blank
import Seismogram.Text.Numeral
import Seismogram.Time.Instant

/-!
# Scanning times

The pieces that the written forms of times share. Blanks may stand before every number. A year may
have a sign; with one it has any number of digits, without one at most four. The other numbers have
one or two digits and no sign.
-/

namespace Seismogram.Time.Scan

open Seismogram.Text

/- Powers are those of the core library, whatever algebra is imported beside it. -/
attribute [local instance (2000)] instPowNat

def field? (cs : List Char) : Option (Nat × List Char) := digits? 2 (skipBlanks cs)

def year? (cs : List Char) : Option (Int × List Char) :=
  match skipBlanks cs with
  | '-' :: rest => (digits? rest.length rest).map fun (n, rest) => (-(n : Int), rest)
  | '+' :: rest => (digits? rest.length rest).map fun (n, rest) => ((n : Int), rest)
  | cs => (digits? 4 cs).map fun (n, rest) => ((n : Int), rest)

def char? (c : Char) : List Char → Option (List Char)
  | [] => none
  | d :: rest => if d = c then some rest else none

/-- What follows a separator; `none` stands for numbers that are written without one. -/
def separator? : Option Char → List Char → Option (List Char)
  | none, cs => some cs
  | some c, cs => char? c cs

/-- How a date and a time of day are separated, and whether blanks may stand before separators. -/
structure Style where
  dates : Option Char
  times : Option Char
  loose : Bool
  deriving DecidableEq, Repr

namespace Style

def blanks (style : Style) (cs : List Char) : List Char :=
  if style.loose then skipBlanks cs else cs

def date? (style : Style) (cs : List Char) : Option (Date × List Char) := do
  let (year, cs) ← year? cs
  let cs ← separator? style.dates (style.blanks cs)
  let (month, cs) ← field? cs
  let cs ← separator? style.dates (style.blanks cs)
  let (day, cs) ← field? cs
  return (⟨year, month, day⟩, cs)

def timeOfDay? (style : Style) (cs : List Char) : Option ((Nat × Nat × Nat) × List Char) := do
  let (hour, cs) ← field? cs
  let cs ← separator? style.times (style.blanks cs)
  let (minute, cs) ← field? cs
  let cs ← separator? style.times (style.blanks cs)
  let (second, cs) ← field? cs
  return ((hour, minute, second), cs)

end Style

/-- A fraction of one to nine digits in nanoseconds. -/
def nanosOf (ds : List Char) : Nat := natOfDigits ds * 10 ^ (9 - ds.length)

/-- The year of a written time: four digits, and a sign where four digits do not do. -/
def writeYear (year : Int) : List Char :=
  if 0 ≤ year ∧ year ≤ 9999 then fixedDigits 4 year.toNat
  else (if year < 0 then '-' else '+') :: paddedDigits 4 year.natAbs

def writeCivil (c : Instant.Civil) : List Char :=
  writeYear c.date.year ++ '-' :: paddedDigits 2 c.date.month.toNat ++
    '-' :: paddedDigits 2 c.date.day.toNat ++ 'T' :: paddedDigits 2 c.hour ++
    ':' :: paddedDigits 2 c.minute ++ ':' :: paddedDigits 2 c.second

end Seismogram.Time.Scan
