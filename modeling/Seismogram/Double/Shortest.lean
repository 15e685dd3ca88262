import Seismogram.Double.Basic

/-!
# The shortest decimal of a double

Of all decimals that read back as a given double the one with the fewest digits is chosen, and of
those with equally many digits the one nearest to the double. From the coarsest grid on, which holds
only the power of ten above the double, the two neighbours of the double on each decimal grid are
tried, so reading back holds by construction: seventeen digits always suffice, and the exact
expansion stands behind them.
-/

namespace Seismogram

/-- The number `digits · 10 ^ exponent`. -/
structure Decimal where
  digits : Nat
  exponent : Int
  deriving DecidableEq, Repr

namespace Decimal

/- Powers are those of the core library, whatever algebra is imported beside it. -/
attribute [local instance (2000)] instPowNat

/-- The double nearest to a decimal; infinite when the decimal is out of range. -/
def toDouble (d : Decimal) : Float :=
  Float.ofScientific d.digits (decide (d.exponent < 0)) d.exponent.natAbs

/-- How many decimal digits a number has; zero has none. -/
def digitCount (n : Nat) : Nat := if n = 0 then 0 else (Nat.toDigits 10 n).length

/-- The position of the decimal point before the first digit of a positive fraction: the least `p`
with `num / den < 10 ^ p`. -/
def pointOf (num den : Nat) : Int :=
  if den ≤ num then digitCount (num / den)
  else 1 - (digitCount ((den + num - 1) / num - 1) : Int)

/-- The two neighbours of `num / den` among the multiples of `10 ^ exponent`, the nearer one first
and the upper one first when both are equally near. -/
def neighbours (num den : Nat) (exponent : Int) : List Decimal :=
  let n := if exponent < 0 then num * 10 ^ exponent.natAbs else num
  let d := if exponent < 0 then den else den * 10 ^ exponent.natAbs
  let below : Decimal := ⟨n / d, exponent⟩
  let above : Decimal := ⟨n / d + 1, exponent⟩
  if 2 * (n % d) < d then [below, above] else [above, below]

def readsAs (x : Float) (d : Decimal) : Bool := d.toDouble.toBits == x.toBits

/-- `m · 2 ^ q` written out in full. -/
def exact (m : Nat) (q : Int) : Decimal :=
  if 0 ≤ q then ⟨m * 2 ^ q.toNat, 0⟩ else ⟨m * 5 ^ (-q).toNat, q⟩

/-- The shortest decimal that reads back as a finite double without its sign. -/
def ofDouble (x : Float) : Decimal :=
  let (m, q) := Double.magnitude x
  let (num, den) := Double.ratio m q
  if m = 0 then ⟨0, 0⟩
  else
    let point := pointOf num den
    let candidates := (List.range 18).flatMap fun (count : Nat) =>
      neighbours num den (point - (count : Int))
    (candidates.find? (readsAs x.abs)).getD (exact m q)

/-- A shortest decimal reads back, or is the exact expansion of the double. -/
theorem ofDouble_readsAs_or_exact (x : Float) (h : (Double.magnitude x).1 ≠ 0) :
    readsAs x.abs (ofDouble x) = true ∨
      ofDouble x = exact (Double.magnitude x).1 (Double.magnitude x).2 := by
  simp only [ofDouble, h, ↓reduceIte]
  generalize hc : List.find? _ _ = found
  cases found with
  | none => exact Or.inr rfl
  | some d => exact Or.inl (List.find?_some hc)

end Decimal
end Seismogram
