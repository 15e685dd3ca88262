import Seismogram.ByteOrder

/-!
# Words and their bit fields

Encoded samples are stored in 32-bit words. A word is read from four bytes in either order, and cut
into two's-complement fields of equal width, the most significant field first. Fields are quotients
and remainders by powers of two, so facts about them are facts of arithmetic.
-/

namespace Seismogram.Steim

/- Powers are those of the core library, whatever algebra is imported beside it. -/
attribute [local instance (2000)] instPowNat

abbrev Word := UInt32

/-- A sample or a difference of two samples; sums wrap around. -/
abbrev Sample := Int32

namespace Word

def ofBytes (a b c d : UInt8) : Word :=
  UInt32.ofNat (((a.toNat * 256 + b.toNat) * 256 + c.toNat) * 256 + d.toNat)

def bytes (w : Word) : List UInt8 :=
  [UInt8.ofNat (w.toNat / 16777216), UInt8.ofNat (w.toNat / 65536), UInt8.ofNat (w.toNat / 256),
    UInt8.ofNat w.toNat]

def ofStored (order : ByteOrder) (a b c d : UInt8) : Word :=
  match order with
  | .big => ofBytes a b c d
  | .little => ofBytes d c b a

def stored (order : ByteOrder) (w : Word) : List UInt8 :=
  match order with
  | .big => w.bytes
  | .little => w.bytes.reverse

/-- The words of a buffer; bytes after the last whole word are left out. -/
def ofBuffer (order : ByteOrder) : List UInt8 → List Word
  | a :: b :: c :: d :: rest => ofStored order a b c d :: ofBuffer order rest
  | _ => []

def toBuffer (order : ByteOrder) (words : List Word) : List UInt8 :=
  words.flatMap (stored order)

/-- The bits of `w` that form field `k` counted from the least significant one, as a natural. -/
def field (w : Word) (bits k : Nat) : Nat := w.toNat / 2 ^ (bits * k) % 2 ^ bits

/-- The sample whose two's-complement form in `bits` bits is `v`. -/
def signed (bits v : Nat) : Sample := Int32.ofInt (Int.bmod v (2 ^ bits))

/-- The lowest `count · bits` bits as `count` signed fields, the most significant field first. -/
def fields (w : Word) (count bits : Nat) : List Sample :=
  (List.range count).map fun i => signed bits (w.field bits (count - 1 - i))

/-- The two control bits of word `index` of a frame, from the frame's control word. -/
def nibble (control : Word) (index : Nat) : Nat := control.toNat / 2 ^ (30 - 2 * index) % 4

/-- The weight of the two leading bits of a word. -/
def selectorWeight : Nat := 1073741824

def selector (w : Word) : Nat := w.toNat / selectorWeight

/-- The word read as a signed sample. -/
def toSample (w : Word) : Sample := w.toInt32

@[simp] theorem length_fields (w : Word) (count bits : Nat) :
    (w.fields count bits).length = count := by
  simp [fields]

theorem selector_lt (w : Word) : w.selector < 4 := by
  have := w.toNat_lt
  rw [selector, selectorWeight]
  omega

theorem nibble_lt (control : Word) (index : Nat) : nibble control index < 4 :=
  Nat.mod_lt _ (by decide)

theorem length_ofBuffer (order : ByteOrder) (buffer : List UInt8) :
    (ofBuffer order buffer).length = buffer.length / 4 := by
  fun_induction ofBuffer order buffer with
  | case1 a b c d rest ih => simp only [List.length_cons, ih]; omega
  | case2 buffer h =>
    have : buffer.length < 4 := by
      match buffer, h with
      | [], _ => simp
      | [_], _ => simp
      | [_, _], _ => simp
      | [_, _, _], _ => simp
      | a :: b :: c :: d :: rest, h => exact absurd rfl (h a b c d rest)
    simp only [List.length_nil]
    omega

/-- A word comes back from its bytes. -/
theorem ofBytes_bytes (w : Word) (a b c d : UInt8) (h : w.bytes = [a, b, c, d]) :
    ofBytes a b c d = w := by
  have hw := w.toNat_lt
  simp only [bytes, List.cons.injEq, and_true, ← UInt8.toNat_inj, UInt8.toNat_ofNat'] at h
  rw [← UInt32.toNat_inj, ofBytes, UInt32.toNat_ofNat_of_lt' (by simp only [UInt32.size]; omega)]
  omega

/-- Words come back from the buffer they are stored in, in either order. -/
theorem ofBuffer_toBuffer (order : ByteOrder) (words : List Word) :
    ofBuffer order (toBuffer order words) = words := by
  induction words with
  | nil => rfl
  | cons w rest ih =>
    have key := ofBytes_bytes w _ _ _ _ rfl
    cases order
    · simp only [toBuffer, List.flatMap_cons, stored, bytes, List.cons_append, List.nil_append,
        ofBuffer, ofStored]
      rw [key]; exact congrArg _ ih
    · simp only [toBuffer, List.flatMap_cons, stored, bytes, List.reverse_cons, List.reverse_nil,
        List.nil_append, List.cons_append, ofBuffer, ofStored]
      rw [key]; exact congrArg _ ih

theorem length_toBuffer (order : ByteOrder) (words : List Word) :
    (toBuffer order words).length = 4 * words.length := by
  induction words with
  | nil => rfl
  | cons w rest ih =>
    have four : (stored order w).length = 4 := by cases order <;> rfl
    rw [toBuffer, List.flatMap_cons, List.length_append, four, ← toBuffer, ih, List.length_cons]
    omega

end Word
end Seismogram.Steim
