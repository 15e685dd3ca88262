import Seismogram.ByteOrder

/-!
# Assembly settings

How a batch of records is assembled: the byte order of the host, what a failing record does to the
batch, and who does the work.
-/

namespace Seismogram.Assembly

/-- What a failing record does to its batch. -/
inductive Policy where
  /-- The first failure is the outcome of the batch. -/
  | failFast
  /-- Failures are reported beside the traces of the other records. -/
  | collectErrors
  deriving DecidableEq, Repr

inductive Execution where
  /-- Records are assembled one after another. -/
  | sequential
  /-- Records are spread over workers. -/
  | parallel (workers : Nat)
  deriving DecidableEq, Repr

/-- The workers of a parallel execution that names no number. -/
def defaultWorkers : Nat := 4

structure Settings where
  host : ByteOrder
  policy : Policy
  execution : Execution
  deriving DecidableEq, Repr

/-- The settings where none are configured. The host is then the machine itself. -/
def Settings.default (machine : ByteOrder) : Settings := ⟨machine, .failFast, .sequential⟩

end Seismogram.Assembly
