import Seismogram.Config
import Seismogram.Codec.Trial
import Seismogram.Directory.Catalog
import Seismogram.Query

/-!
# Sessions

A session keeps a catalog, a configuration, a codec, a converter and the faults planted in front of
the catalog. Queries go through a client made of what the session keeps at that moment.
-/

namespace Seismogram

structure Session where
  catalog : Directory.Catalog
  config : Config
  codec : Codec
  converter : Converter
  faults : Directory.Method → Option Directory.Fault

namespace Session

/-- A session on a machine, with an empty catalog, in which nothing fails. -/
def start (machine : ByteOrder) : Session :=
  ⟨.empty, .default machine, .native machine, .standard, fun _ => none⟩

/-- The catalog behind the planted faults. -/
def service (s : Session) : Directory.Service := s.catalog.service.withFaults s.faults

def client (s : Session) : Client := ⟨s.service, s.codec, s.config.assembly, s.converter⟩

/-- Plants a fault in front of a method, or takes it away. -/
def plant (s : Session) (method : Directory.Method) (fault : Option Directory.Fault) : Session :=
  { s with faults := fun m => if m = method then fault else s.faults m }

/-- Whether records are spread over workers, so that the order of events is not determined. -/
def isParallel (s : Session) : Bool :=
  match s.config.assembly.execution with
  | .sequential => false
  | .parallel _ => true

end Session
end Seismogram
