import Seismogram.Time.Scan

/-!
# Internet timestamps

Stored values keep times in the form of RFC 3339. Reading is lenient: blanks may stand before every
number and separator, a space may separate date and time, fractions may be longer than nine digits,
and the offset may be written without a colon or as `UTC`.
-/

namespace Seismogram.Time.Rfc3339

open Seismogram.Text

/-- The separators, with blanks allowed before them. -/
def style : Scan.Style := ⟨some '-', some ':', true⟩

/-- The digits of a fraction, as few as are exact: none, three, six or nine. -/
def writeFraction (nanos : Nat) : List Char :=
  if nanos = 0 then []
  else if nanos % 1000000 = 0 then '.' :: fixedDigits 3 (nanos / 1000000)
  else if nanos % 1000 = 0 then '.' :: fixedDigits 6 (nanos / 1000)
  else '.' :: fixedDigits 9 nanos

def write (t : Instant) : String :=
  String.ofList (Scan.writeCivil t.civil ++ writeFraction t.fraction ++ ['Z'])

/-- The nanoseconds of a fraction, if there is a point; digits after the ninth are passed over. -/
def fraction? (cs : List Char) : Option (Nat × List Char) :=
  match cs with
  | '.' :: rest =>
    let ds := rest.takeWhile Char.isDigit
    if ds.isEmpty then none else some (Scan.nanosOf (ds.take 9), rest.drop ds.length)
  | _ => some (0, cs)

def twoDigits? : List Char → Option (Nat × List Char)
  | a :: b :: rest => if a.isDigit && b.isDigit then some (natOfDigits [a, b], rest) else none
  | _ => none

/-- Whether a text begins with `UTC` in either case. -/
def startsWithUtc (cs : List Char) : Bool := (cs.take 3).map Char.toUpper == ['U', 'T', 'C']

/-- An offset from UTC in seconds: `Z`, `UTC`, or a sign, hours and minutes. -/
def offset? (cs : List Char) : Option (Int × List Char) :=
  if startsWithUtc cs then some (0, cs.drop 3)
  else
    match cs with
    | [] => none
    | c :: rest =>
      if c = 'Z' ∨ c = 'z' then some (0, rest)
      else if c = '+' ∨ c = '-' ∨ c = '\u2212' then do
        let (hours, rest) ← twoDigits? rest
        let (minutes, rest) ← twoDigits? (rest.dropWhile fun d => d = ':' ∨ isBlank d)
        if minutes < 60 then
          let size : Int := hours * 3600 + minutes * 60
          return (if c = '+' then size else -size, rest)
        else none
      else none

def read? (text : String) : Option Instant := do
  let (date, cs) ← style.date? text.toList
  let (separator, cs) ← match cs with
    | c :: rest => some (c, rest)
    | [] => none
  if separator = 'T' ∨ separator = 't' ∨ separator = ' ' then
    let ((hour, minute, second), cs) ← style.timeOfDay? cs
    let (nanos, cs) ← fraction? cs
    let (offset, cs) ← offset? (skipBlanks cs)
    if (skipBlanks cs).isEmpty ∧ offset.natAbs < secondsPerDay then
      let written ← Instant.ofCivil? ⟨date, hour, minute, second⟩ nanos
      written.addSeconds? (-offset)
    else none
  else none

end Seismogram.Time.Rfc3339
