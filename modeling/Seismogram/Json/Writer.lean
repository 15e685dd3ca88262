import Seismogram.Json.Reader

/-!
# Writing JSON

A value is written as the tokens that the reader takes, without blanks. Main statement: the
tokens of a value read back as that value.
-/

namespace Seismogram.Json

namespace Value

mutual

def tokens : Value → List Token
  | .null => [.nullWord]
  | .bool true => [.trueWord]
  | .bool false => [.falseWord]
  | .number n => [.number n]
  | .text t => [.text t]
  | .array items => .beginArray :: itemTokens true items ++ [.endArray]
  | .object members => .beginObject :: memberTokens true members ++ [.endObject]

/-- The tokens of the items of an array, each but the first after a comma. -/
def itemTokens (first : Bool) : List Value → List Token
  | [] => []
  | item :: rest => (if first then [] else [.comma]) ++ item.tokens ++ itemTokens false rest

/-- The tokens of the members of an object, each but the first after a comma. -/
def memberTokens (first : Bool) : List (Text × Value) → List Token
  | [] => []
  | (name, value) :: rest =>
    (if first then [] else [.comma]) ++ .text name :: .colon :: value.tokens ++
      memberTokens false rest

end

end Value

namespace Token

open Seismogram.Text (fixedDigits)

/- Powers are those of the core library, whatever algebra is imported beside it. -/
attribute [local instance (2000)] instPowNat

def hexDigit (n : Nat) : Char :=
  if n < 10 then Char.ofNat ('0'.toNat + n) else Char.ofNat ('a'.toNat + n - 10)

/-- The letter of the short escape of a character. -/
def escapeLetter? : Char → Option Char
  | '"' => some '"'
  | '\\' => some '\\'
  | '\x08' => some 'b'
  | '\x0c' => some 'f'
  | '\n' => some 'n'
  | '\r' => some 'r'
  | '\t' => some 't'
  | _ => none

/-- A character of a string as it is written. What has no short escape is escaped by its number, if
it is a control character. -/
def writeChar (c : Char) : List Char :=
  match escapeLetter? c with
  | some letter => ['\\', letter]
  | none =>
    if c.toNat < 0x20 then
      ['\\', 'u', '0', '0', hexDigit (c.toNat / 16), hexDigit (c.toNat % 16)]
    else [c]

/-- A string between its quotes. A string that stands for no characters is written as a surrogate
without its partner. -/
def writeText : Text → List Char
  | some s => '"' :: s.toList.flatMap writeChar ++ ['"']
  | none => "\"\\ud800\"".toList

/-- The places behind a point, and the point. -/
def writePlaces (digits places : Nat) : List Char :=
  if places = 0 then [] else '.' :: fixedDigits places (digits % 10 ^ places)

/-- The exponent of a number with so many places. -/
def writeExponent (places : Nat) (exponent : Int) : List Char :=
  if places ≠ 0 ∧ exponent = 0 then [] else 'e' :: (toString exponent).toList

/-- A number as it was written, up to zeros in front of its exponent. -/
def writeNumber : Number → List Char
  | .integer value => (toString value).toList
  | .decimal negative digits places exponent =>
    (if negative then ['-'] else []) ++ (toString (digits / 10 ^ places)).toList ++
      (writePlaces digits places ++ writeExponent places exponent)

def write : Token → List Char
  | .beginArray => ['[']
  | .endArray => [']']
  | .beginObject => ['{']
  | .endObject => ['}']
  | .colon => [':']
  | .comma => [',']
  | .nullWord => "null".toList
  | .trueWord => "true".toList
  | .falseWord => "false".toList
  | .number n => writeNumber n
  | .text t => writeText t

end Token

def Value.toText (v : Value) : String := String.ofList (v.tokens.flatMap Token.write)

namespace Reader

mutual

/-- The tokens of a value take a reader that waits for one to the complete value. -/
theorem steps_tokens (v : Value) (outer : List Opened) (rest : List Token) :
    (Reader.atValue outer).steps (v.tokens ++ rest) = (Reader.after v outer).steps rest := by
  cases v with
  | null => rfl
  | bool b => cases b <;> rfl
  | number n => rfl
  | text t => rfl
  | array items =>
    cases items with
    | nil => rfl
    | cons item more =>
      simp only [Value.tokens, Value.itemTokens, ↓reduceIte, List.nil_append, List.cons_append,
        List.append_assoc]
      rw [show (Reader.atValue outer).steps (Token.beginArray ::
          (item.tokens ++ (Value.itemTokens false more ++ (Token.endArray :: rest))))
          = (Reader.atItemOrEnd outer).steps
            (item.tokens ++ (Value.itemTokens false more ++ (Token.endArray :: rest))) from rfl,
        atItemOrEnd_eq_atValue item, steps_tokens item]
      have := steps_itemTokens more item [] outer rest
      simpa using this
  | object members =>
    cases members with
    | nil => rfl
    | cons m more =>
      obtain ⟨name, value⟩ := m
      simp only [Value.tokens, Value.memberTokens, ↓reduceIte, List.nil_append, List.cons_append,
        List.append_assoc]
      rw [show (Reader.atValue outer).steps (Token.beginObject :: Token.text name :: Token.colon ::
          (value.tokens ++ (Value.memberTokens false more ++ (Token.endObject :: rest))))
          = (Reader.atValue (.object [] name :: outer)).steps
            (value.tokens ++ (Value.memberTokens false more ++ (Token.endObject :: rest)))
          from rfl,
        steps_tokens value]
      have := steps_memberTokens more name value [] outer rest
      simpa using this

/-- After a complete item, the tokens of further items close the array around all of them. -/
theorem steps_itemTokens (more : List Value) (item : Value) (items : List Value)
    (outer : List Opened) (rest : List Token) :
    (Reader.after item (.array items :: outer)).steps
        (Value.itemTokens false more ++ (Token.endArray :: rest))
      = (Reader.after (.array (items.reverse ++ item :: more)) outer).steps rest := by
  cases more with
  | nil => simp [Value.itemTokens, steps, step]
  | cons next more =>
    simp only [Value.itemTokens, Bool.false_eq_true, ↓reduceIte, List.cons_append,
      List.nil_append, List.append_assoc]
    rw [show (Reader.after item (.array items :: outer)).steps (Token.comma ::
        (next.tokens ++ (Value.itemTokens false more ++ (Token.endArray :: rest))))
        = (Reader.atValue (.array (item :: items) :: outer)).steps
          (next.tokens ++ (Value.itemTokens false more ++ (Token.endArray :: rest))) from rfl,
      steps_tokens next, steps_itemTokens more next (item :: items) outer rest]
    simp

/-- After a complete member, the tokens of further members close the object around all of them. -/
theorem steps_memberTokens (more : List (Text × Value)) (name : Text) (value : Value)
    (members : List (Text × Value)) (outer : List Opened) (rest : List Token) :
    (Reader.after value (.object members name :: outer)).steps
        (Value.memberTokens false more ++ (Token.endObject :: rest))
      = (Reader.after (.object (members.reverse ++ (name, value) :: more)) outer).steps rest := by
  cases more with
  | nil => simp [Value.memberTokens, steps, step]
  | cons m more =>
    obtain ⟨next, v⟩ := m
    simp only [Value.memberTokens, Bool.false_eq_true, ↓reduceIte, List.cons_append,
      List.nil_append, List.append_assoc]
    rw [show (Reader.after value (.object members name :: outer)).steps (Token.comma ::
        Token.text next :: Token.colon ::
        (v.tokens ++ (Value.memberTokens false more ++ (Token.endObject :: rest))))
        = (Reader.atValue (.object ((name, value) :: members) next :: outer)).steps
          (v.tokens ++ (Value.memberTokens false more ++ (Token.endObject :: rest))) from rfl,
      steps_tokens v, steps_memberTokens more next v ((name, value) :: members) outer rest]
    simp

/-- The first token of a value is no closing bracket, so an opened array waits for it like any
other place. -/
theorem atItemOrEnd_eq_atValue (v : Value) (outer : List Opened) (rest : List Token) :
    (Reader.atItemOrEnd outer).steps (v.tokens ++ rest)
      = (Reader.atValue (.array [] :: outer)).steps (v.tokens ++ rest) := by
  cases v with
  | bool b => cases b <;> rfl
  | _ => rfl

end

end Reader

theorem Value.ofTokens?_tokens (v : Value) : Value.ofTokens? v.tokens = some v := by
  have h := Reader.steps_tokens v [] []
  simp only [List.append_nil] at h
  simp [Value.ofTokens?, h, Reader.steps, Reader.result?]

end Seismogram.Json
