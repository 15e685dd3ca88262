import Seismogram.Encoding
import Seismogram.Steim.Fault
import Seismogram.Steim.Word

/-!
# Field layouts

How a data word is cut into differences is said by the nibble of the word in its frame's control
word and, for some nibbles, by the two leading bits of the word. Each encoding has one table of
layouts, from which words are read and written.
-/

namespace Seismogram.Steim

/-- `count` fields of `bits` bits each at the low end of a word, chosen by a nibble and, if
given, by the leading bits of the word. -/
structure Layout where
  nibble : Nat
  selector : Option Nat
  count : Nat
  bits : Nat
  deriving DecidableEq, Repr

def layouts : Encoding → List Layout
  | .steim1 => [⟨1, none, 4, 8⟩, ⟨2, none, 2, 16⟩, ⟨3, none, 1, 32⟩]
  | .steim2 =>
    [⟨1, none, 4, 8⟩, ⟨2, some 1, 1, 30⟩, ⟨2, some 2, 2, 15⟩, ⟨2, some 3, 3, 10⟩,
      ⟨3, some 0, 5, 6⟩, ⟨3, some 1, 6, 5⟩, ⟨3, some 2, 7, 4⟩]

/-- A data word with the nibble that describes it. -/
structure Cell where
  nibble : Nat
  word : Word
  deriving DecidableEq, Repr

/-- A cell with as much of its nibble as a control word has room for. -/
def Cell.clip (cell : Cell) : Cell := ⟨cell.nibble % 4, cell.word⟩

def Layout.fits (layout : Layout) (cell : Cell) : Bool :=
  decide (layout.nibble = cell.nibble) &&
    layout.selector.all fun selector => decide (selector = cell.word.selector)

def Cell.layout? (e : Encoding) (cell : Cell) : Option Layout :=
  (layouts e).find? fun layout => layout.fits cell

/-- The differences a cell carries. A cell of nibble zero carries none, whatever its word holds. -/
def Cell.differences (e : Encoding) (cell : Cell) : Except Fault (List Sample) :=
  if cell.nibble = 0 then .ok []
  else
    match cell.layout? e with
    | some layout => .ok (cell.word.fields layout.count layout.bits)
    | none => .error (.undefinedLayout e cell.nibble cell.word.selector)

/-- Every layout fits into a word beside its leading bits, and none has more than seven fields. -/
theorem layout_bounds (e : Encoding) :
    ∀ layout ∈ layouts e,
      0 < layout.nibble ∧ layout.nibble < 4 ∧ 1 ≤ layout.count ∧ layout.count ≤ 7 ∧
        1 ≤ layout.bits ∧ layout.count * layout.bits ≤ 32 := by
  cases e <;> decide

end Seismogram.Steim
