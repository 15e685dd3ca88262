import Seismogram.Failure
import Seismogram.Json.Library

/-!
# Stored forms

A stored form says how values of a type are written as JSON values and which JSON values are
read as which values of the type. Reading follows rules that all forms share:

* a structure is an object, whose unknown members are passed over wherever they stand and whose
  known members may each occur once, or an array of its members in order;
* a missing member is an error unless it has a default;
* a plain choice is its name, or an object that gives the name the value null; where the choice
  heads an array and says what follows there, it is its name alone;
* an integer has to be written as one and lie in range.

A value that has to be kept before its form is known must itself be readable, and `room` is the
number of containers that may still be opened inside each other there.
-/

namespace Seismogram.Json

/-- How values of a type are written and read. -/
structure Form (α : Type) where
  write : α → Value
  read : Nat → Value → Option α

/-- The containers that may be open inside each other at once. -/
def maxDepth : Nat := 127

namespace Form

variable {α : Type}

/-- The value of a text, or the failure with what the library says of the text. -/
def ofText (f : Form α) (lib : Library) (text : String) : Except Failure α :=
  match (lib.parse text).bind (f.read maxDepth) with
  | some a => .ok a
  | none => .error (.storedForm (lib.complaint text))

def toText (f : Form α) (lib : Library) (a : α) : String := lib.print (f.write a)

/-! ### Simple values -/

def string : Form String where
  write := Value.ofString
  read _
    | .text t => t
    | _ => none

def int (least greatest : Int) : Form Int where
  write := Value.ofInt
  read _
    | .number n => n.toInt?.filter fun value => decide (least ≤ value) && decide (value ≤ greatest)
    | _ => none

def nat (bound : Nat) : Form Nat where
  write n := Value.ofInt n
  read room v := ((int 0 (bound - 1)).read room v).map Int.toNat

def int32 : Form Int := int Int32.minValue.toInt Int32.maxValue.toInt

def count : Form Nat := nat UInt64.size

/-- Doubles, from any number that the library reads as one. -/
def double (lib : Library) : Form Float where
  write := Value.ofDouble lib
  read _
    | .number n => lib.toDouble? n
    | _ => none

/-- A form on the same JSON values, through functions there and back. -/
def map {β : Type} (f : Form α) (back : β → α) (there : α → β) : Form β where
  write b := f.write (back b)
  read room v := (f.read room v).map there

/-- A form on some of the JSON values. -/
def mapOption {β : Type} (f : Form α) (back : β → α) (there : α → Option β) : Form β where
  write b := f.write (back b)
  read room v := (f.read room v).bind there

/-- A value that may be absent; null stands for its absence. -/
def optional (f : Form α) : Form (Option α) where
  write
    | none => .null
    | some a => f.write a
  read room
    | .null => some none
    | v => (f.read room v).map some

def readItems (read : Value → Option α) : List Value → Option (List α)
  | [] => some []
  | item :: rest =>
    match read item with
    | none => none
    | some a =>
      match readItems read rest with
      | none => none
      | some more => some (a :: more)

def list (f : Form α) : Form (List α) where
  write as := .array (as.map f.write)
  read room
    | .array items => readItems (f.read (room - 1)) items
    | _ => none

/-- A choice among values that have names, by the name alone. -/
def named (all : List α) (name : α → String) : Form α where
  write a := Value.ofString (name a)
  read room v := (string.read room v).bind fun text => all.find? fun a => name a == text

/-- The name of a plain choice. -/
def choiceName? : Value → Option String
  | .text t => t
  | .object [(name, .null)] => name
  | _ => none

/-- A choice among values that have names. -/
def choice (all : List α) (name : α → String) : Form α where
  write a := Value.ofString (name a)
  read _ v := (choiceName? v).bind fun text => all.find? fun a => name a == text

end Form

/-! ### Structures -/

/-- The known members of a structure by their names, and the room that their values have. -/
structure Members where
  room : Nat
  entries : List (String × Value)

namespace Members

variable {α : Type}

def known (names : List String) (all : List (Text × Value)) : List (String × Value) :=
  all.filterMap fun
    | (some name, v) => if names.contains name then some (name, v) else none
    | (none, _) => none

/-- The members of a structure whose members have the given names, in order. -/
def ofValue? (names : List String) (room : Nat) : Value → Option Members
  | .object all =>
    let found := known names all
    if all.all (fun m => m.1.isSome) ∧ (found.map (·.1)).Nodup then some ⟨room - 1, found⟩ else none
  | .array items =>
    if items.length ≤ names.length then some ⟨room - 1, names.zip items⟩ else none
  | _ => none

def get? (ms : Members) (name : String) : Option Value := ms.entries.lookup name

def required (ms : Members) (f : Form α) (name : String) : Option α :=
  (ms.get? name).bind (f.read ms.room)

def withDefault (ms : Members) (f : Form α) (name : String) (default : α) : Option α :=
  match ms.get? name with
  | some v => f.read ms.room v
  | none => some default

end Members

/-- A structure, from the names of its members and how they are written and read. -/
def Form.structured {α : Type} (names : List String) (write : α → List (String × Value))
    (read : Members → Option α) : Form α where
  write a := Value.ofMembers (write a)
  read room v := (Members.ofValue? names room v).bind read

end Seismogram.Json
