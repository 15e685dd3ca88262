import Seismogram.Json.Form
import Seismogram.Response.Filter

/-!
# Stored responses

The stored forms of filters, stages and pole/zero responses. A filter is a pair of its kind and
its data, as an object in either order or as an array, in which the kind is its name alone. Data
that come before their kind are kept until the kind is known.
-/

namespace Seismogram.Stored

open Json Json.Form

variable (lib : Library)

def measuredComplex : Form MeasuredComplex :=
  structured ["real", "imaginary", "real_error", "imaginary_error"]
    (fun z => [("real", (double lib).write z.real), ("imaginary", (double lib).write z.imaginary),
      ("real_error", (double lib).write z.realError),
      ("imaginary_error", (double lib).write z.imaginaryError)])
    fun ms => do
      return ⟨← ms.required (double lib) "real", ← ms.required (double lib) "imaginary",
        ← ms.withDefault (double lib) "real_error" 0.0,
        ← ms.withDefault (double lib) "imaginary_error" 0.0⟩

def poleZeroData : Form PoleZeroData :=
  structured ["poles", "zeros"]
    (fun d => [("poles", (list (measuredComplex lib)).write d.poles),
      ("zeros", (list (measuredComplex lib)).write d.zeros)])
    fun ms => do
      return ⟨← ms.required (list (measuredComplex lib)) "poles",
        ← ms.required (list (measuredComplex lib)) "zeros"⟩

def coefficientData : Form CoefficientData :=
  structured ["numerator", "denominator"]
    (fun d => [("numerator", (list (double lib)).write d.numerator),
      ("denominator", (list (double lib)).write d.denominator)])
    fun ms => do
      return ⟨← ms.required (list (double lib)) "numerator",
        ← ms.required (list (double lib)) "denominator"⟩

def listData : Form ListData :=
  structured ["frequency", "amplitude", "phase"]
    (fun d => [("frequency", (list (double lib)).write d.frequency),
      ("amplitude", (list (double lib)).write d.amplitude),
      ("phase", (list (double lib)).write d.phase)])
    fun ms => do
      return ⟨← ms.required (list (double lib)) "frequency",
        ← ms.required (list (double lib)) "amplitude", ← ms.required (list (double lib)) "phase"⟩

def filterKind : Form FilterKind := choice FilterKind.all FilterKind.key

/-- The kind at the head of a filter that is written as an array. -/
def filterHead : Form FilterKind := named FilterKind.all FilterKind.key

def readFilterData (room : Nat) (data : Value) : FilterKind → Option Filter
  | .poleZero => ((poleZeroData lib).read room data).map .poleZero
  | .coefficient => ((coefficientData lib).read room data).map .coefficient
  | .list => ((listData lib).read room data).map .list

def writeFilterData : Filter → Value
  | .poleZero d => (poleZeroData lib).write d
  | .coefficient d => (coefficientData lib).write d
  | .list d => (listData lib).write d

/-- A filter from its members: the kind and the data. -/
def readFilterMembers (kind : Form FilterKind) (ms : Members) : Option Filter := do
  readFilterData lib ms.room (← ms.get? "value") (← ms.required kind "kind")

/-- Whether the data of a filter can be read where they stand: data that come before their kind are
kept first. -/
def filterDataFit (ms : Members) : Bool :=
  match ms.entries with
  | ("value", data) :: _ => data.holds lib ms.room
  | _ => true

def filter : Form Filter where
  write f := Value.ofMembers [("kind", filterKind.write f.kind), ("value", writeFilterData lib f)]
  read room v := do
    let ms ← Members.ofValue? ["kind", "value"] room v
    match v with
    | .array _ => readFilterMembers lib filterHead ms
    | _ => if filterDataFit lib ms then readFilterMembers lib filterKind ms else none

def normalization : Form Normalization :=
  structured ["ao_normalization_factor", "normalization_freq"]
    (fun n => [("ao_normalization_factor", (double lib).write n.factor),
      ("normalization_freq", (double lib).write n.frequency)])
    fun ms => do
      return ⟨← ms.required (double lib) "ao_normalization_factor",
        ← ms.required (double lib) "normalization_freq"⟩

def responseStage : Form ResponseStage :=
  structured ["normalization", "filters"]
    (fun s => [("normalization", (optional (normalization lib)).write s.normalization),
      ("filters", (list (filter lib)).write s.filters)])
    fun ms => do
      return ⟨← ms.withDefault (optional (normalization lib)) "normalization" none,
        ← ms.required (list (filter lib)) "filters"⟩

def instrumentResponse : Form InstrumentResponse :=
  structured ["stages"] (fun r => [("stages", (list (responseStage lib)).write r.stages)])
    fun ms => do
      return ⟨← ms.required (list (responseStage lib)) "stages"⟩

def complex : Form Complex :=
  structured ["re", "im"]
    (fun z => [("re", (double lib).write z.re), ("im", (double lib).write z.im)])
    fun ms => do
      return ⟨← ms.required (double lib) "re", ← ms.required (double lib) "im"⟩

def poleZeroResponse : Form PoleZeroResponse :=
  structured ["poles", "zeros", "gain", "normalization_frequency"]
    (fun r => [("poles", (list (complex lib)).write r.poles),
      ("zeros", (list (complex lib)).write r.zeros), ("gain", (double lib).write r.gain),
      ("normalization_frequency", (optional (double lib)).write r.normalizationFrequency)])
    fun ms => do
      return ⟨← ms.required (list (complex lib)) "poles",
        ← ms.required (list (complex lib)) "zeros",
        ← ms.required (double lib) "gain",
        ← ms.withDefault (optional (double lib)) "normalization_frequency" none⟩

end Seismogram.Stored
