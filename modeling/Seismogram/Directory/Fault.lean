/-!
# Faults of a directory service

Why a service does not answer. A fault is passed on as it is, never interpreted or retried.
-/

namespace Seismogram.Directory

inductive Fault where
  | unreachable (text : String)
  | noData
  | ambiguous (count : Nat)
  | remote (text : String)
  deriving DecidableEq, Repr

namespace Fault

def message : Fault → String
  | .unreachable text => "service unreachable: " ++ text
  | .noData => "no data"
  | .ambiguous count => s!"server returned ambiguous data ({count} matches)"
  | .remote text => "remote error: " ++ text

end Fault
end Seismogram.Directory
