/-!
# Locations and coordinates

Where a station stands, and the coordinates reported for it.
-/

namespace Seismogram

/-- The reference a location is given in. -/
inductive LocationKind where
  | geographic
  | geocentric
  deriving DecidableEq, Repr

namespace LocationKind

def all : List LocationKind := [.geographic, .geocentric]

def name : LocationKind → String
  | .geographic => "GEOGRAPHIC"
  | .geocentric => "GEOCENTRIC"

theorem mem_all (kind : LocationKind) : kind ∈ all := by
  cases kind <;> decide

end LocationKind

/-- A location as the directory reports it; the elevation is in the named unit. -/
structure Location where
  latitude : Float
  longitude : Float
  elevation : Float
  elevationUnit : String
  kind : LocationKind

def Location.expectedUnit : String := "METER"

end Seismogram
