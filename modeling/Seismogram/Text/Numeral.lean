/-!
# Decimal numerals

Natural numbers read from and written as ASCII decimal digits.
-/

namespace Seismogram.Text

/- Powers are those of the core library, whatever algebra is imported beside it. -/
attribute [local instance (2000)] instPowNat

def natOfDigits (ds : List Char) : Nat :=
  ds.foldl (fun n c => 10 * n + (c.toNat - '0'.toNat)) 0

def digitChar (n : Nat) : Char := Char.ofNat ('0'.toNat + n)

/-- The lowest `width` digits of a number, leading zeros included. -/
def fixedDigits : Nat → Nat → List Char
  | 0, _ => []
  | width + 1, n => fixedDigits width (n / 10) ++ [digitChar (n % 10)]

/-- A number with at least `width` digits. -/
def paddedDigits (width n : Nat) : List Char :=
  if n < 10 ^ width then fixedDigits width n else Nat.toDigits 10 n

/-- At most `limit` leading digits, of which there has to be one, and what follows them. -/
def digits? (limit : Nat) (cs : List Char) : Option (Nat × List Char) :=
  let ds := (cs.take limit).takeWhile Char.isDigit
  if ds.isEmpty then none else some (natOfDigits ds, cs.drop ds.length)

@[simp] theorem length_fixedDigits (width n : Nat) : (fixedDigits width n).length = width := by
  induction width generalizing n with
  | zero => rfl
  | succ width ih => simp [fixedDigits, ih]

theorem digitChar_isDigit {n : Nat} (h : n < 10) : (digitChar n).isDigit = true := by
  match n, h with
  | 0, _ | 1, _ | 2, _ | 3, _ | 4, _ | 5, _ | 6, _ | 7, _ | 8, _ | 9, _ => decide

theorem isDigit_of_mem_fixedDigits {width n : Nat} {c : Char} (h : c ∈ fixedDigits width n) :
    c.isDigit = true := by
  induction width generalizing n with
  | zero => simp [fixedDigits] at h
  | succ width ih =>
    simp only [fixedDigits, List.mem_append, List.mem_singleton] at h
    rcases h with h | rfl
    · exact ih h
    · exact digitChar_isDigit (Nat.mod_lt _ (by decide))

theorem natOfDigits_append_singleton (ds : List Char) (c : Char) :
    natOfDigits (ds ++ [c]) = 10 * natOfDigits ds + (c.toNat - '0'.toNat) := by
  simp [natOfDigits, List.foldl_append]

theorem natOfDigits_fixedDigits (width n : Nat) :
    natOfDigits (fixedDigits width n) = n % 10 ^ width := by
  induction width generalizing n with
  | zero => simp [fixedDigits, natOfDigits, Nat.mod_one]
  | succ width ih =>
    have hd : (digitChar (n % 10)).toNat - '0'.toNat = n % 10 := by
      have : n % 10 < 10 := Nat.mod_lt _ (by decide)
      generalize n % 10 = d at this
      match d, this with
      | 0, _ | 1, _ | 2, _ | 3, _ | 4, _ | 5, _ | 6, _ | 7, _ | 8, _ | 9, _ => decide
    rw [fixedDigits, natOfDigits_append_singleton, ih, hd, Nat.pow_succ, Nat.mul_comm _ 10,
      Nat.mod_mul]
    omega

/-- Zeros behind the digits of a number scale it. -/
theorem natOfDigits_append_zeros (ds : List Char) (zeros : Nat) :
    natOfDigits (ds ++ List.replicate zeros '0') = natOfDigits ds * 10 ^ zeros := by
  induction zeros with
  | zero => simp
  | succ zeros ih =>
    have zero : '0'.toNat - '0'.toNat = 0 := rfl
    rw [List.replicate_succ', ← List.append_assoc, natOfDigits_append_singleton, ih, zero,
      Nat.pow_succ, Nat.add_zero, Nat.mul_comm 10, Nat.mul_assoc]

/-- The size of a number is bounded by how many digits it has. -/
theorem natOfDigits_lt {ds : List Char} (all : ∀ d ∈ ds, d.isDigit = true) :
    natOfDigits ds < 10 ^ ds.length := by
  suffices backward : ∀ ds : List Char, (∀ d ∈ ds, d.isDigit = true) →
      natOfDigits ds.reverse < 10 ^ ds.length by
    simpa using backward ds.reverse (by simpa using all)
  intro ds
  induction ds with
  | nil => exact fun _ => Nat.one_pos
  | cons d ds ih =>
    intro all
    have digit := all d List.mem_cons_self
    have small := ih fun d member => all d (List.mem_cons_of_mem _ member)
    rw [Char.isDigit, Bool.and_eq_true, decide_eq_true_eq, decide_eq_true_eq] at digit
    have value : d.toNat - '0'.toNat ≤ 9 :=
      Nat.sub_le_sub_right (UInt32.le_iff_toNat_le.1 digit.2) 48
    rw [List.reverse_cons, natOfDigits_append_singleton, List.length_cons, Nat.pow_succ]
    omega

theorem natOfDigits_toDigits (n : Nat) : natOfDigits (Nat.toDigits 10 n) = n :=
  Nat.ofDigitChars_ten_toDigits

/-- The digits of a number begin with a zero for zero only. -/
theorem head?_toDigits_ne_zero {n : Nat} (pos : 0 < n) : (Nat.toDigits 10 n).head? ≠ some '0' := by
  induction n using Nat.strongRecOn with
  | ind n ih =>
    by_cases small : n < 10
    · have table : ∀ m < 10, 0 < m → m.digitChar ≠ '0' := by decide
      rw [Nat.toDigits_of_lt_base small, List.head?_cons, ne_eq, Option.some.injEq]
      exact table n small pos
    · have first := ih (n / 10) (by omega) (by omega)
      obtain ⟨digit, rest, digits⟩ := List.exists_cons_of_ne_nil (Nat.toDigits_ne_nil (b := 10))
      rw [digits] at first
      rw [Nat.toDigits_of_base_le (by omega) (by omega), digits]
      exact first

theorem isDigit_of_mem_toDigits {n : Nat} {c : Char} (member : c ∈ Nat.toDigits 10 n) :
    c.isDigit = true :=
  Nat.isDigit_of_mem_toDigits (by decide) (by decide) member

theorem isDigit_of_mem_paddedDigits {width n : Nat} {c : Char} (member : c ∈ paddedDigits width n) :
    c.isDigit = true := by
  rw [paddedDigits] at member
  split at member
  · exact isDigit_of_mem_fixedDigits member
  · exact isDigit_of_mem_toDigits member

theorem natOfDigits_paddedDigits (width n : Nat) : natOfDigits (paddedDigits width n) = n := by
  rw [paddedDigits]
  split
  · next small => rw [natOfDigits_fixedDigits, Nat.mod_eq_of_lt small]
  · exact natOfDigits_toDigits n

theorem takeWhile_isDigit_append {ds rest : List Char} (all : ∀ c ∈ ds, c.isDigit = true)
    (stop : ∀ c ∈ rest.head?, c.isDigit = false) : (ds ++ rest).takeWhile Char.isDigit = ds := by
  have here : rest.takeWhile Char.isDigit = [] := by
    cases rest with
    | nil => rfl
    | cons c more => exact List.takeWhile_cons_of_neg (by simp [stop c rfl])
  rw [List.takeWhile_append_of_pos all, here, List.append_nil]

/-- Up to a limit, digits are read up to a character that is none. -/
theorem digits?_append (limit : Nat) {ds rest : List Char} (all : ∀ c ∈ ds, c.isDigit = true)
    (some : ds ≠ []) (fits : ds.length ≤ limit) (stop : ∀ c ∈ rest.head?, c.isDigit = false) :
    digits? limit (ds ++ rest) = .some (natOfDigits ds, rest) := by
  have stopped : ∀ c ∈ (rest.take (limit - ds.length)).head?, c.isDigit = false := by
    intro c first
    rw [List.head?_take] at first
    split at first
    · cases first
    · exact stop c first
  rw [digits?, List.take_append, List.take_of_length_le fits, takeWhile_isDigit_append all stopped]
  simp [some]

/-- As many digits as the limit allows are read, whatever follows them. -/
theorem digits?_append_of_length {limit : Nat} (pos : limit ≠ 0) {ds : List Char}
    (all : ∀ c ∈ ds, c.isDigit = true) (full : ds.length = limit) (rest : List Char) :
    digits? limit (ds ++ rest) = some (natOfDigits ds, rest) := by
  subst full
  have whole := @takeWhile_isDigit_append ds [] all (by simp)
  rw [List.append_nil] at whole
  have some : ds ≠ [] := by simpa using pos
  simp [digits?, whole, some]

end Seismogram.Text
