import Seismogram.Event

/-!
# Coordinates of a location

Only geographic locations have coordinates. Values are taken as they are reported; an elevation
in an unexpected unit is not converted but warned about.
-/

namespace Seismogram

/-- What an extraction found worth a warning. -/
inductive Warning where
  | elevationUnit (unit : String)
  deriving DecidableEq, Repr

def Warning.message : Warning → String
  | .elevationUnit unit =>
    "Elevation unit != \"METER\" (unit: \"" ++ unit ++ "\"); value not converted"

/-- A value that was extracted, with warnings about it. -/
structure Extraction (α : Type) where
  value : α
  warnings : List Warning

namespace Location

def warnings (l : Location) : List Warning :=
  if l.elevationUnit = expectedUnit then [] else [.elevationUnit l.elevationUnit]

/-- The coordinates of a location; each warning is logged as well. -/
def coordinates (l : Location) : Outcome (Extraction Location) :=
  if l.kind = .geographic then
    ⟨l.warnings.map fun w => .line ⟨.warn, w.message⟩, .ok ⟨l, l.warnings⟩⟩
  else .fail (.locationKind l.kind)

end Location
end Seismogram
