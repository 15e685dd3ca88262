import Seismogram.Json.Value
import Seismogram.Time.Instant

/-!
# Libraries for stored forms

Stored forms leave some of their work to a library: texts of values, numbers of doubles and texts of
instants, each there and back. It is a parameter of theirs, of which nothing is known but what it is
asked for; a theorem says which answers it relies on.
-/

namespace Seismogram.Json

open Time (Instant)

structure Library where
  print : Value → String
  parse : String → Option Value
  /-- What is said of a text that holds no value of the form wanted. -/
  complaint : String → String
  /-- A finite double as a number. -/
  ofDouble : Float → Number
  /-- The double that is read from a number, or `none` if it is refused. -/
  toDouble? : Number → Option Float
  ofInstant : Instant → String
  toInstant? : String → Option Instant

namespace Value

variable (lib : Library)

/-- A finite double as a number; other doubles have no number and become null. -/
def ofDouble (x : Float) : Value := if x.isFinite then .number (lib.ofDouble x) else .null

/-- Whether a number can be kept, as an integer of 64 bits with or without a sign or as a double. -/
def holdsNumber (n : Number) : Bool :=
  (n.toInt?.any fun value => decide (Int64.minValue.toInt ≤ value ∧ value < UInt64.size)) ||
    (lib.toDouble? n).isSome

theorem holdsNumber_integer {n : Int} (least : Int64.minValue.toInt ≤ n)
    (greatest : n < UInt64.size) : holdsNumber lib (.integer n) = true := by
  have fits := decide_eq_true (And.intro least greatest)
  rw [holdsNumber, Number.toInt?, Option.any_some, fits, Bool.true_or]

mutual

/-- Whether a value can be kept whole until its form is known: at most `room` containers inside each
other, every number one that can be kept and every string well-formed. -/
def holds (room : Nat) : Value → Bool
  | .null | .bool _ => true
  | .number n => holdsNumber lib n
  | .text t => t.isSome
  | .array items => decide (0 < room) && holdsItems (room - 1) items
  | .object members => decide (0 < room) && holdsMembers (room - 1) members

def holdsItems (room : Nat) : List Value → Bool
  | [] => true
  | item :: rest => holds room item && holdsItems room rest

def holdsMembers (room : Nat) : List (Text × Value) → Bool
  | [] => true
  | (name, value) :: rest => name.isSome && holds room value && holdsMembers room rest

end

end Value
end Seismogram.Json
