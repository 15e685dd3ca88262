import Seismogram.Json.Standard
import Seismogram.Proofs.Double.Decimals
import Seismogram.Proofs.Json.Forms
import Seismogram.Proofs.Json.Text
import Seismogram.Proofs.Time.Timestamps

/-!
# What the standard library can be relied on for

The standard library reads back every text it writes, every finite double, the zeros with their
signs, and every instant with a civil time of its own. The digits of a double read back as it, and
setting the point among them does not change what they are read as.
-/

namespace Seismogram.Json

open Float.Model
open Float.Model.UnpackedFloat
open Double

attribute [local instance (2000)] instPowNat

namespace Number

@[simp] theorem isNegative_layOut (negative : Bool) (d : Decimal) :
    (layOut negative d).isNegative = negative := by
  rw [layOut]
  split
  · rfl
  · split <;> rfl

@[simp] theorem isNegative_shortest (x : Float) :
    (shortest x).isNegative = Double.isNegative x := by
  rw [shortest]
  split
  · exact isNegative_layOut _ _
  · rfl

theorem toDouble_size_shortest {x : Float} (finite : x.isFinite = true) :
    (shortest x).size.toDouble = x.abs := by
  rw [← Decimal.toDouble_ofDouble finite, shortest]
  split
  · next same => exact Float.toBits_inj.1 (beq_iff_eq.1 same)
  · rw [size, Int.natCast_zero, Int.sub_zero]

/-- The number of a finite double reads back as that double, the zeros with their signs. -/
theorem nearest?_shortest {x : Float} (finite : x.isFinite = true) :
    (shortest x).nearest? = some x := by
  have inRange : x.abs.isInf = false := by
    rw [abs_eq finite]
    show (UnpackedFloat.unpack Format.binary64 (UnpackedFloat.pack Format.binary64 _)).isInf = _
    rw [unpack_pack _ (representable_magnitude finite), isInf_signed]
  rw [nearest?]
  simp only [toDouble_size_shortest finite, inRange, isNegative_shortest, signed_abs finite]
  rfl

example : [36.3689, 620.0, -0.0, 1e16, 5e-324].map (fun x => (Value.ofDouble .standard x).toText) =
    ["36.3689", "620.0", "-0.0", "1e16", "5e-324"] := by decide +kernel

end Number

namespace Library

theorem readsBack_standard : standard.ReadsBack := fun v _ => v.ofText?_toText

theorem keepsDouble_standard {x : Float} (finite : x.isFinite = true) : standard.KeepsDouble x :=
  ⟨finite, Number.nearest?_shortest finite⟩

theorem keepsInstant_standard {t : Time.Instant} (own : t.IsCivil) : standard.KeepsInstant t :=
  Time.Rfc3339.read?_write own

end Library
end Seismogram.Json
