import Seismogram.Directory.Fault
import Seismogram.Double.Plain
import Seismogram.Interval
import Seismogram.Location
import Seismogram.Response.Filter
import Seismogram.Steim.Fault

/-!
# Failures

Every reason why an operation of the library does not give a value. Failures are causes; they
are put into words by `Failure.message` and by the messages of the faults it mentions.
-/

namespace Seismogram

/-- What an instrument response lacks. -/
inductive ResponseGap where
  | stage
  | filter
  deriving DecidableEq, Repr

/-- What should not happen where an application is set up and used as intended. -/
inductive InternalFault where
  /-- A log level is configured that does not exist. -/
  | unknownLevel (name : String)
  /-- A fault that someone else reports in words. -/
  | described (text : String)
  deriving DecidableEq, Repr

inductive Failure where
  /-- A compression code that names no encoding. -/
  | unknownCompression (code : Int)
  /-- A sampling interval that is not given in seconds. -/
  | unitNotSecond (unit : BaseUnit)
  | interval (fault : IntervalFault)
  | steim (fault : Steim.Fault)
  /-- A buffer whose length is no multiple of the length of a frame. -/
  | bufferLength (unit actual : Nat)
  | sampleCount (expected actual : Nat)
  /-- A failure of one record of a batch, with its position and channel. -/
  | record (index : Nat) (channel : String) (cause : Failure)
  | locationKind (kind : LocationKind)
  | filterKind (kind : FilterKind)
  | incompleteResponse (gap : ResponseGap)
  | timestamp (text : String)
  /-- A directory service that failed, with the request that was on its way. -/
  | directory (request : String) (fault : Directory.Fault)
  /-- A table that is refused by what makes it. -/
  | table (reason : String)
  /-- Text that is no stored form of the value wanted. -/
  | storedForm (reason : String)
  /-- A file that cannot be opened. -/
  | file (reason : String)
  | internal (fault : InternalFault)
  deriving Inhabited

namespace IntervalFault

def message : IntervalFault → String
  | .noSamples => "zero sample count reached the rate resolver"
  | .notPositive seconds => s!"interval {Double.plain seconds} s is not a positive finite duration"
  | .rateNotFinite samples seconds => s!"rate {samples} / {Double.plain seconds} s is not finite"
  | .traceRate trace rate => s!"trace {trace} has sampling rate {Double.plain rate}"
  | .described text => text

end IntervalFault

def InternalFault.message : InternalFault → String
  | .unknownLevel name => "Unknown log level '" ++ name ++ "'"
  | .described text => text

def ResponseGap.name : ResponseGap → String
  | .stage => "response stage"
  | .filter => "filter in the first stage"

namespace Failure

def message : Failure → String
  | unknownCompression code => s!"Compression {code} not implemented"
  | unitNotSecond unit => s!"Unsupported sampling interval unit: {unit.name} (expected SECOND)"
  | interval fault => s!"Invalid sampling interval: {fault.message}"
  | steim fault => s!"Steim decoding failed: {fault.message}"
  | bufferLength unit actual =>
    s!"Buffer length mismatch: expected a multiple of {unit}, got {actual}"
  | sampleCount expected actual => s!"Sample count mismatch: expected {expected}, got {actual}"
  | record index channel cause => s!"Record {index} ({channel}) failed: {cause.message}"
  | locationKind kind =>
    "Location types != \"GEOGRAPHIC\" are not supported (type: \"" ++ kind.name ++ "\")"
  | filterKind kind => s!"Unexpected response filter type: {kind.name} (expected POLEZERO)"
  | incompleteResponse gap => s!"Instrument response has no {gap.name}"
  | timestamp text => "Invalid timestamp: " ++ text
  | directory request fault => s!"Directory request {request} failed: {fault.message}"
  | table reason => "Arrow operation failed: " ++ reason
  | storedForm reason => "Serde JSON error: " ++ reason
  | file reason => "I/O error: " ++ reason
  | internal fault => "Internal logic error (this is a bug): " ++ fault.message

/-- The cause behind any number of record failures. -/
def rootCause : Failure → Failure
  | record _ _ cause => cause.rootCause
  | other => other

/-- The texts of the causes behind a failure, the nearest first. -/
def causes : Failure → List String
  | record _ _ cause => cause.message :: cause.causes
  | directory _ fault => [fault.message]
  | table reason | storedForm reason | file reason => [reason]
  | _ => []

end Failure
end Seismogram
