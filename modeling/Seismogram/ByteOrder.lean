/-!
# Stored byte order

The order in which the four bytes of a sample word are stored. The order of the machine that decodes
is a value as well, so nothing depends on where a computation runs.
-/

namespace Seismogram

inductive ByteOrder where
  | big
  | little
  deriving DecidableEq, Repr

namespace ByteOrder

/-- Chunks carry one flag: set for little-endian words. -/
def ofFlag (littleEndian : Bool) : ByteOrder := if littleEndian then .little else .big

/-- Words are swapped exactly when the stored order is not the host's. -/
def needsSwap (stored host : ByteOrder) : Bool := decide (stored ≠ host)

def other : ByteOrder → ByteOrder
  | .big => .little
  | .little => .big

/-- The stored order that a swap flag means on a host. -/
def ofSwap (host : ByteOrder) (swap : Bool) : ByteOrder := if swap then host.other else host

def name : ByteOrder → String
  | .big => "big-endian"
  | .little => "little-endian"

end ByteOrder
end Seismogram
