import Seismogram.Failure
import Seismogram.Time.Scan

/-!
# Directory timestamps

Requests carry times as `YYYY-MM-DDTHH:MM:SS.ffffZ`, with ten thousandths of a second. Answers
come in this extended form or in the compact form `YYYYMMDDTHHMMSS.fffZ`; in both the final `Z`
and the fraction may be missing, and up to nine digits of a fraction are read.
-/

namespace Seismogram.Time.Stamp

open Seismogram.Text

/-- The separators of the extended form. -/
def extended : Scan.Style := ⟨some '-', some ':', false⟩

/-- The compact form separates nothing but the date from the time of day. -/
def compact : Scan.Style := ⟨none, none, false⟩

/-- The ten thousandths of a second that are written. What a leap second has beyond its first second
is cut off at the last of them. -/
def tenThousandths (t : Instant) : Nat := min (t.nanos / 100000) 9999

def write (t : Instant) : String :=
  String.ofList (Scan.writeCivil t.civil ++ '.' :: paddedDigits 4 (tenThousandths t) ++ ['Z'])

def civil? (cs : List Char) : Option Instant.Civil := do
  let style := if cs.contains '-' then extended else compact
  let (date, cs) ← style.date? cs
  let cs ← Scan.char? 'T' cs
  let ((hour, minute, second), cs) ← style.timeOfDay? cs
  if cs.isEmpty then return ⟨date, hour, minute, second⟩ else none

/-- The nanoseconds of what follows the first point; no point means none. -/
def fraction? : List Char → Option Nat
  | [] => some 0
  | _ :: ds =>
    if ds.isEmpty || decide (9 < ds.length) || !ds.all Char.isDigit then none
    else some (Scan.nanosOf ds)

def body (text : String) : List Char :=
  let cs := (trim text).toList
  if cs.getLast? = some 'Z' then cs.dropLast else cs

def read? (text : String) : Option Instant := do
  let cs := body text
  let civil ← civil? (cs.takeWhile (· ≠ '.'))
  let nanos ← fraction? (cs.dropWhile (· ≠ '.'))
  Instant.ofCivil? civil nanos

/-- The instant of a timestamp, or the failure that names the whole text. -/
def read (text : String) : Except Failure Instant :=
  match read? text with
  | some t => .ok t
  | none => .error (.timestamp text)

end Seismogram.Time.Stamp
