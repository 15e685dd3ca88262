/-!
# Log lines

Lines are values: a computation returns the lines it writes, in order, and whoever runs it decides
which of them to show.
-/

namespace Seismogram.Log

/-- Levels from the gravest to the finest. -/
inductive Level where
  | error
  | warn
  | info
  | debug
  | trace
  deriving DecidableEq, Repr

namespace Level

/-- The rank of a level; a graver level ranks lower. -/
def rank : Level → Nat
  | .error => 1
  | .warn => 2
  | .info => 3
  | .debug => 4
  | .trace => 5

def tag : Level → String
  | .error => "ERROR"
  | .warn => "WARN"
  | .info => "INFO"
  | .debug => "DEBUG"
  | .trace => "TRACE"

end Level

/-- What is shown: nothing, or every line up to a level. -/
abbrev Threshold := Option Level

def thresholds : List (String × Threshold) :=
  [("off", none), ("error", some .error), ("warn", some .warn), ("info", some .info),
   ("debug", some .debug), ("trace", some .trace)]

/-- The threshold of a name; the case of ASCII letters does not matter. -/
def threshold? (name : String) : Option Threshold :=
  (thresholds.find? fun entry => entry.1 == name.map Char.toLower).map (·.2)

structure Line where
  level : Level
  text : String
  deriving DecidableEq, Repr

namespace Line

def shown (line : Line) (threshold : Threshold) : Bool :=
  threshold.any fun level => decide (line.level.rank ≤ level.rank)

def render (line : Line) : String := "[" ++ line.level.tag ++ "] " ++ line.text

end Line

/-- A metric: one debug line of quoted keys and values, in the given order. -/
def metric (entries : List (String × String)) : Line :=
  let parts := entries.map fun (key, value) => "\"" ++ key ++ "\": \"" ++ value ++ "\""
  ⟨.debug, "FISSURES_METRIC: \x7b " ++ ", ".intercalate parts ++ " \x7d"⟩

end Seismogram.Log
