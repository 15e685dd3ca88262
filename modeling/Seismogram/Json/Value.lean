/-!
# JSON values

A value keeps what its text says: the members of an object in order and with repetitions, and for a
number how it is written. What a repetition or a fraction means is decided by the form that reads
the value.
-/

namespace Seismogram.Json

inductive Number where
  /-- An integer literal. Minus zero is none, since no integer has that sign. -/
  | integer (value : Int)
  /-- `± digits · 10 ^ (exponent - places)`, written with so many places behind the point and with
  an exponent if it is not zero. Without places the exponent is always written. -/
  | decimal (negative : Bool) (digits places : Nat) (exponent : Int)
  deriving DecidableEq, Repr

/-- A string as it is written: `none` if it names a surrogate without its partner, which stands for
no character. -/
abbrev Text := Option String

inductive Value where
  | null
  | bool (value : Bool)
  | number (value : Number)
  | text (value : Text)
  | array (items : List Value)
  | object (members : List (Text × Value))

/-- The integer of a number that is written as one. -/
def Number.toInt? : Number → Option Int
  | .integer value => some value
  | .decimal .. => none

namespace Value

def ofString (s : String) : Value := .text (some s)

def ofInt (n : Int) : Value := .number (.integer n)

/-- An object with members of well-formed names. -/
def ofMembers (members : List (String × Value)) : Value :=
  .object (members.map fun (name, value) => (some name, value))

end Value
end Seismogram.Json
