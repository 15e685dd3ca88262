import Seismogram.Config
import Seismogram.Json.Form
import Seismogram.Stored.Record

/-!
# Stored configurations

The stored forms of settings. Every member has a default but the mode of an execution. An
execution is an object with its mode among its members, or an array that begins with the mode;
what stands beside the mode is kept until the mode is known. A host that is not given is the machine
itself.
-/

namespace Seismogram.Stored

open Json Json.Form Assembly

variable (lib : Library) (machine : ByteOrder)

def policy : Form Policy :=
  choice [.failFast, .collectErrors] fun
    | .failFast => "fail_fast"
    | .collectErrors => "collect_errors"

def readExecution (room : Nat) (rest : Value) (mode : String) : Option Execution :=
  if mode = "sequential" then
    match rest with
    | .array (_ :: _) => none
    | _ => some .sequential
  else if mode = "parallel" then do
    let ms ← Members.ofValue? ["workers"] room rest
    return .parallel (← ms.withDefault count "workers" defaultWorkers)
  else none

/-- The members of an object with a name, and the others. -/
def partitionMembers (name : String) (all : List (Text × Value)) :
    List (Text × Value) × List (Text × Value) :=
  all.partition fun m => m.1 == some name

def execution : Form Execution where
  write
    | .sequential => Value.ofMembers [("mode", string.write "sequential")]
    | .parallel workers =>
      Value.ofMembers [("mode", string.write "parallel"), ("workers", count.write workers)]
  read room
    | .object all =>
      match partitionMembers "mode" all with
      | ([(_, .text (some mode))], rest) =>
        if Value.holdsMembers lib (room - 1) rest then readExecution room (.object rest) mode
        else none
      | _ => none
    | .array (.text (some mode) :: rest) =>
      if Value.holdsItems lib (room - 1) rest then readExecution room (.array rest) mode else none
    | _ => none

def assemblySettings : Form Settings :=
  structured ["host_byte_order", "error_policy", "execution"]
    (fun s => [("host_byte_order", byteOrder.write s.host), ("error_policy", policy.write s.policy),
      ("execution", (execution lib).write s.execution)])
    fun ms => do
      return ⟨← ms.withDefault byteOrder "host_byte_order" (Settings.default machine).host,
        ← ms.withDefault policy "error_policy" (Settings.default machine).policy,
        ← ms.withDefault (execution lib) "execution" (Settings.default machine).execution⟩

def logSettings : Form LogSettings :=
  structured ["level", "log_file"]
    (fun s => [("level", string.write s.level), ("log_file", (optional string).write s.file)])
    fun ms => do
      return ⟨← ms.withDefault string "level" LogSettings.default.level,
        ← ms.withDefault (optional string) "log_file" LogSettings.default.file⟩

def config : Form Config :=
  structured ["assembly", "logging"]
    (fun c => [("assembly", (assemblySettings lib machine).write c.assembly),
      ("logging", logSettings.write c.logging)])
    fun ms => do
      return ⟨← ms.withDefault (assemblySettings lib machine) "assembly"
          (Config.default machine).assembly,
        ← ms.withDefault logSettings "logging" (Config.default machine).logging⟩

end Seismogram.Stored
