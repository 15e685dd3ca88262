/-!
# Sample encodings

The closed registry of encodings that a chunk can name by its compression code.
-/

namespace Seismogram

inductive Encoding where
  | steim1
  | steim2
  deriving DecidableEq, Repr

namespace Encoding

def code : Encoding → Int
  | .steim1 => 10
  | .steim2 => 11

def ofCode? (code : Int) : Option Encoding :=
  if code = 10 then some .steim1 else if code = 11 then some .steim2 else none

def name : Encoding → String
  | .steim1 => "STEIM1"
  | .steim2 => "STEIM2"

@[simp] theorem ofCode?_code (e : Encoding) : ofCode? e.code = some e := by
  cases e <;> rfl

theorem ofCode?_eq_some_iff {code : Int} {e : Encoding} :
    ofCode? code = some e ↔ code = e.code := by
  constructor
  · intro h
    unfold ofCode? at h
    split at h
    · next hc => cases h; exact hc
    · split at h
      · next hc => cases h; exact hc
      · cases h
  · rintro rfl
    exact ofCode?_code e

theorem ofCode?_eq_none_iff {code : Int} : ofCode? code = none ↔ code ≠ 10 ∧ code ≠ 11 := by
  unfold ofCode?
  by_cases h : code = 10 <;> by_cases k : code = 11 <;> simp [h, k]

end Encoding
end Seismogram
