import Seismogram.Double.Plain
import Seismogram.Trace

/-!
# Traces as columns

A trace is exported as a table of two columns, the time and the value of each sample, with the
identity and the rate of the trace beside it. Times are microseconds since 1970-01-01 in 64 bits.
The library that makes tables may refuse one; what it says then is a parameter.
-/

namespace Seismogram

/-- What is declared of a column. A nullable one may have missing values. -/
structure Field where
  name : String
  type : String
  nullable : Bool
  deriving DecidableEq, Repr

/-- Values of one type; `none` stands for one that is missing. -/
structure Column (α : Type) where
  type : String
  values : List (Option α)

structure Columns where
  fields : List Field
  metadata : List (String × String)
  time : Column Int
  sample : Column Steim.Sample

namespace Columns

def timeType : String := "Timestamp(Microsecond, Some(\"UTC\"))"

def sampleType : String := "Int32"

def traceFields : List Field := [⟨"time", timeType, false⟩, ⟨"sample", sampleType, false⟩]

def rows (c : Columns) : Nat := c.time.values.length

/-- The time of a sample, counted from the whole microsecond at which the first one was taken. -/
def timeOf (t : Trace) (index : Nat) : Int :=
  t.start.unixMicros + Double.toInt64 (Double.ofCount index * (1e6 / t.rate))

def fits (time : Int) : Bool :=
  decide (Double.int64Bounds.1 ≤ time) && decide (time ≤ Double.int64Bounds.2)

/-- The times of all samples; `none` if one of them takes more than 64 bits. -/
def timesOf? (t : Trace) : Option (List Int) :=
  let times := (List.range t.data.length).map (timeOf t)
  if times.all fits then some times else none

def metadataOf (t : Trace) : List (String × String) :=
  [("network", t.network), ("station", t.station), ("location", t.location),
    ("channel", t.channel), ("sampling_rate", Double.plain t.rate)]

def ofTimes (t : Trace) (times : List Int) : Columns :=
  ⟨traceFields, metadataOf t, ⟨timeType, times.map some⟩, ⟨sampleType, t.data.map some⟩⟩

section

variable (complaint? : Columns → Option String)

/-- The table of a trace. Its count has to be right, its rate finite and above zero, and the library
may not complain of the table. No outcome is fixed for a trace with a time beyond 64 bits. -/
def ofTrace (t : Trace) : Option (Except Failure Columns) :=
  match t.verify with
  | .error failure => some (.error failure)
  | .ok () =>
    if !t.rate.isFinite || t.rate ≤ 0.0 then some (.error (.interval (.traceRate t.id t.rate)))
    else
      (timesOf? t).map fun times =>
        match complaint? (ofTimes t times) with
        | none => .ok (ofTimes t times)
        | some reason => .error (.table reason)

/-- The tables of a list of traces, or the failure of the first trace that has none. -/
def ofTraces : List Trace → Option (Except Failure (List Columns))
  | [] => some (.ok [])
  | t :: rest =>
    match ofTrace complaint? t with
    | none => none
    | some (.error failure) => some (.error failure)
    | some (.ok table) => (ofTraces rest).map (·.map (table :: ·))

end

/-- Whether a table is as declared: two columns of one length and of the types of their fields, and
no value missing. -/
structure AsDeclared (c : Columns) : Prop where
  types : c.fields.map (·.type) = [c.time.type, c.sample.type]
  length : c.time.values.length = c.sample.values.length
  complete : none ∉ c.time.values ∧ none ∉ c.sample.values

instance (c : Columns) : Decidable c.AsDeclared :=
  decidable_of_iff
    (c.fields.map (·.type) = [c.time.type, c.sample.type] ∧
      c.time.values.length = c.sample.values.length ∧
      none ∉ c.time.values ∧ none ∉ c.sample.values)
    ⟨fun h => ⟨h.1, h.2.1, h.2.2⟩, fun h => ⟨h.types, h.length, h.complete⟩⟩

/-- A library that accepts what is as declared and nothing else. -/
def mismatch? (c : Columns) : Option String :=
  if c.AsDeclared then none else some "Invalid argument error: columns must match the schema"

end Columns
end Seismogram
