import Seismogram.Assembly.Settings
import Seismogram.Failure
import Seismogram.Log

/-!
# Configuration

The settings of an application: how batches are assembled, and what is logged where.
-/

namespace Seismogram

/-- The name of a level, and a file that takes the log lines. -/
structure LogSettings where
  level : String
  file : Option String
  deriving DecidableEq, Repr

structure Config where
  assembly : Assembly.Settings
  logging : LogSettings
  deriving DecidableEq, Repr

namespace LogSettings

def default : LogSettings := ⟨"info", none⟩

/-- Checks that the level has a name that is known and then that the file, if there is one, can be
opened. Which files cannot be, and why, is a fact about the surroundings. -/
def check (s : LogSettings) (refusal? : String → Option String) : Except Failure Log.Threshold :=
  match Log.threshold? s.level with
  | none => .error (.internal (.unknownLevel s.level))
  | some threshold =>
    match s.file.bind refusal? with
    | none => .ok threshold
    | some reason => .error (.file reason)

end LogSettings

def Config.default (machine : ByteOrder) : Config :=
  ⟨Assembly.Settings.default machine, LogSettings.default⟩

end Seismogram
