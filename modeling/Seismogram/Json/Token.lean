import Seismogram.Json.Value
import Seismogram.Text.Numeral

/-!
# JSON tokens

The lexical half of strict JSON: strings with their escapes, numbers without leading zeros, the
three words, and punctuation. Blanks are the four that JSON allows. Each reader returns what is
left of the text, and every token takes at least one character.
-/

namespace Seismogram.Json

open Seismogram.Text (natOfDigits)

inductive Token where
  | beginArray
  | endArray
  | beginObject
  | endObject
  | colon
  | comma
  | nullWord
  | trueWord
  | falseWord
  | number (value : Number)
  | text (value : Text)
  deriving DecidableEq, Repr

namespace Token

def isBlank (c : Char) : Bool := c == ' ' || c == '\t' || c == '\n' || c == '\r'

/-! ### Strings -/

/-- What one piece of a written string stands for: a character, or a 16-bit unit by its number. -/
inductive Piece where
  | char (c : Char)
  | unit (n : Nat)
  deriving DecidableEq, Repr

def hexDigit? (c : Char) : Option Nat :=
  if '0' ≤ c ∧ c ≤ '9' then some (c.toNat - '0'.toNat)
  else if 'a' ≤ c ∧ c ≤ 'f' then some (c.toNat - 'a'.toNat + 10)
  else if 'A' ≤ c ∧ c ≤ 'F' then some (c.toNat - 'A'.toNat + 10)
  else none

/-- The 16-bit unit of four hexadecimal digits. -/
def unit? (a b c d : Char) : Option Nat := do
  return ((((← hexDigit? a) * 16 + (← hexDigit? b)) * 16 + (← hexDigit? c)) * 16 + (← hexDigit? d))

def escape? : Char → Option Char
  | '"' => some '"'
  | '\\' => some '\\'
  | '/' => some '/'
  | 'b' => some '\x08'
  | 'f' => some '\x0c'
  | 'n' => some '\n'
  | 'r' => some '\r'
  | 't' => some '\t'
  | _ => none

/-- The pieces of a string up to its closing quote, and what follows the quote. Control characters
have to be escaped. -/
def pieces? : List Char → Option (List Piece × List Char)
  | [] => none
  | '"' :: rest => some ([], rest)
  | '\\' :: 'u' :: a :: b :: c :: d :: rest => do
    let n ← unit? a b c d
    let (more, rest) ← pieces? rest
    return (.unit n :: more, rest)
  | '\\' :: c :: rest => do
    let escaped ← escape? c
    let (more, rest) ← pieces? rest
    return (.char escaped :: more, rest)
  | c :: rest =>
    if c.toNat < 0x20 then none
    else do
      let (more, rest) ← pieces? rest
      return (.char c :: more, rest)

/-- The characters of a list of pieces; a leading surrogate joins the trailing one after it, and
either alone stands for nothing. -/
def characters? : List Piece → Option (List Char)
  | [] => some []
  | .char c :: rest => (c :: ·) <$> characters? rest
  | .unit n :: rest =>
    if 0xD800 ≤ n ∧ n < 0xDC00 then
      match rest with
      | .unit low :: rest =>
        if 0xDC00 ≤ low ∧ low < 0xE000 then
          (Char.ofNat (0x10000 + (n - 0xD800) * 0x400 + (low - 0xDC00)) :: ·) <$> characters? rest
        else none
      | _ => none
    else if 0xDC00 ≤ n ∧ n < 0xE000 then none
    else (Char.ofNat n :: ·) <$> characters? rest

/-- The string that follows an opening quote. -/
def string? (cs : List Char) : Option (Text × List Char) := do
  let (pieces, rest) ← pieces? cs
  return (String.ofList <$> characters? pieces, rest)

/-! ### Numbers -/

/-- The leading digits and what follows them. -/
def digits (cs : List Char) : List Char × List Char :=
  (cs.takeWhile Char.isDigit, cs.dropWhile Char.isDigit)

/-- The digits after a point, if there is a point; then at least one has to follow. -/
def fraction? (cs : List Char) : Option (Option (List Char) × List Char) :=
  match cs with
  | '.' :: rest =>
    let (ds, rest) := digits rest
    if ds.isEmpty then none else some (some ds, rest)
  | _ => some (none, cs)

/-- Whether a sign in front is a minus, and what follows it; `plus` says whether a plus sign may
stand there as well. -/
def sign (plus : Bool) (cs : List Char) : Bool × List Char :=
  match cs with
  | '-' :: rest => (true, rest)
  | '+' :: rest => if plus then (false, rest) else (false, cs)
  | _ => (false, cs)

/-- The exponent, if there is one; then at least one digit has to follow its sign. -/
def exponent? (cs : List Char) : Option (Option Int × List Char) :=
  match cs with
  | c :: rest =>
    if c = 'e' ∨ c = 'E' then
      let (negative, rest) := sign true rest
      let (ds, rest) := digits rest
      if ds.isEmpty then none
      else some (some (if negative then -(natOfDigits ds : Int) else natOfDigits ds), rest)
    else some (none, cs)
  | [] => some (none, cs)

def assemble (negative : Bool) (whole : List Char) (fraction : Option (List Char))
    (exponent : Option Int) : Number :=
  let places := fraction.getD []
  let size := natOfDigits (whole ++ places)
  if fraction.isNone && exponent.isNone && !(negative && size == 0) then
    .integer (if negative then -(size : Int) else size)
  else .decimal negative size places.length (exponent.getD 0)

/-- A number; its whole part has no leading zero. -/
def number? (cs : List Char) : Option (Number × List Char) :=
  let (negative, cs) := sign false cs
  let (whole, cs) := digits cs
  if whole.isEmpty || (decide (1 < whole.length) && whole.head? == some '0') then none
  else
    match fraction? cs with
    | none => none
    | some (fraction, cs) =>
      match exponent? cs with
      | none => none
      | some (exponent, cs) => some (assemble negative whole fraction exponent, cs)

/-! ### Tokens -/

/-- The token that begins with a character which is no blank, and what follows it. -/
def next? (c : Char) (rest : List Char) : Option (Token × List Char) :=
  match c with
  | '[' => some (.beginArray, rest)
  | ']' => some (.endArray, rest)
  | '{' => some (.beginObject, rest)
  | '}' => some (.endObject, rest)
  | ':' => some (.colon, rest)
  | ',' => some (.comma, rest)
  | 'n' => match rest with
    | 'u' :: 'l' :: 'l' :: rest => some (.nullWord, rest)
    | _ => none
  | 't' => match rest with
    | 'r' :: 'u' :: 'e' :: rest => some (.trueWord, rest)
    | _ => none
  | 'f' => match rest with
    | 'a' :: 'l' :: 's' :: 'e' :: rest => some (.falseWord, rest)
    | _ => none
  | '"' => (string? rest).map fun (t, rest) => (.text t, rest)
  | _ => (number? (c :: rest)).map fun (n, rest) => (.number n, rest)

theorem length_digits (cs : List Char) :
    (digits cs).1.length + (digits cs).2.length = cs.length := by
  rw [digits, ← List.length_append, List.takeWhile_append_dropWhile]

theorem length_sign (plus : Bool) (cs : List Char) : (sign plus cs).2.length ≤ cs.length := by
  unfold sign
  split
  · simp
  · split <;> simp
  · simp

theorem length_pieces {cs rest : List Char} {ps : List Piece}
    (h : pieces? cs = some (ps, rest)) : rest.length < cs.length := by
  fun_induction pieces? cs generalizing ps rest <;>
    simp_all [Option.bind_eq_some_iff] <;> grind

theorem length_fraction {cs rest : List Char} {f : Option (List Char)}
    (h : fraction? cs = some (f, rest)) : rest.length ≤ cs.length := by
  unfold fraction? at h
  split at h
  · next r =>
    have := length_digits r
    split at h
    simp_all
    omega
  · simp_all

theorem length_exponent {cs rest : List Char} {e : Option Int}
    (h : exponent? cs = some (e, rest)) : rest.length ≤ cs.length := by
  unfold exponent? at h
  split at h
  · next c r =>
    have hs := length_sign true r
    have hd := length_digits (sign true r).2
    simp only at h
    split at h
    · split at h
      · cases h
      · simp only [Option.some.injEq, Prod.mk.injEq] at h
        obtain ⟨-, rfl⟩ := h
        simp only [List.length_cons]
        omega
    · simp only [Option.some.injEq, Prod.mk.injEq] at h
      obtain ⟨-, rfl⟩ := h
      exact Nat.le_refl _
  · simp only [Option.some.injEq, Prod.mk.injEq] at h
    obtain ⟨-, rfl⟩ := h
    exact Nat.le_refl _

theorem length_number {cs rest : List Char} {n : Number}
    (h : number? cs = some (n, rest)) : rest.length < cs.length := by
  unfold number? at h
  have hs := length_sign false cs
  have hd := length_digits (sign false cs).2
  simp only at h
  split at h
  · cases h
  · next hw =>
    have : 0 < (digits (sign false cs).2).1.length := by
      cases hx : (digits (sign false cs).2).1 with
      | nil => simp [hx] at hw
      | cons => simp
    split at h
    · cases h
    · next hf =>
      have hf := length_fraction hf
      split at h
      · cases h
      · next he =>
        have he := length_exponent he
        cases h
        omega

theorem length_next {c : Char} {rest left : List Char} {t : Token}
    (h : next? c rest = some (t, left)) : left.length ≤ rest.length := by
  unfold next? at h
  split at h
  all_goals first
    | (cases h; exact Nat.le_refl _)
    | (split at h <;> cases h; simp only [List.length_cons]; omega)
    | skip
  · simp only [string?, Option.map_eq_some_iff, Option.bind_eq_bind, Option.bind_eq_some_iff,
      Option.pure_def, Option.some.injEq, Prod.exists, Prod.mk.injEq] at h
    obtain ⟨_, _, ⟨_, _, hp, -, rfl⟩, -, rfl⟩ := h
    exact Nat.le_of_lt (length_pieces hp)
  · simp only [Option.map_eq_some_iff, Prod.exists, Prod.mk.injEq] at h
    obtain ⟨_, _, hn, -, rfl⟩ := h
    exact Nat.le_of_lt_succ (length_number hn)

def ofText (cs : List Char) : Option (List Token) :=
  match cs with
  | [] => some []
  | c :: rest =>
    if isBlank c then ofText rest
    else
      match h : next? c rest with
      | none => none
      | some (token, left) =>
        have : left.length ≤ rest.length := length_next h
        (token :: ·) <$> ofText left
termination_by cs.length

end Token
end Seismogram.Json
