import Seismogram.Json.Writer

/-!
# Written JSON is read back

Every token is read back from its characters, whatever stands behind it, except that a number goes
on as far as it can. So the characters of a list of tokens read back as these tokens when no two
numbers stand side by side, and in the tokens of a value there is always something between them.
-/

namespace Seismogram.Json

open Seismogram.Text

attribute [local instance (2000)] instPowNat

namespace Token

/-! ### Numbers -/

/-- Whether a number ends where these characters begin. -/
def Stops (cs : List Char) : Prop :=
  ∀ c ∈ cs.head?, c.isDigit = false ∧ c ≠ '.' ∧ c ≠ 'e' ∧ c ≠ 'E'

theorem digits_append {ds cs : List Char} (all : ∀ c ∈ ds, c.isDigit = true)
    (stop : ∀ c ∈ cs.head?, c.isDigit = false) : digits (ds ++ cs) = (ds, cs) := by
  have whole := List.takeWhile_append_dropWhile (p := Char.isDigit) (l := ds ++ cs)
  rw [takeWhile_isDigit_append all stop] at whole
  rw [digits, takeWhile_isDigit_append all stop, List.append_cancel_left whole]

def writeSigned (negative : Bool) (n : Nat) : List Char :=
  (if negative then ['-'] else []) ++ Nat.toDigits 10 n

theorem toList_toString_int (value : Int) :
    (toString value).toList = writeSigned (decide (value < 0)) value.natAbs := by
  rw [Int.toString_eq_repr, Int.repr_eq_if, writeSigned]
  by_cases negative : value < 0
  · have size : (-value).toNat = value.natAbs := by omega
    simp [negative, Int.not_le.2 negative, size]
  · have size : value.toNat = value.natAbs := by omega
    simp [negative, Int.not_lt.1 negative, size]

theorem sign_writeSigned (plus negative : Bool) (n : Nat) (cs : List Char) :
    sign plus (writeSigned negative n ++ cs) = (negative, Nat.toDigits 10 n ++ cs) := by
  cases negative with
  | true => rfl
  | false =>
    obtain ⟨digit, rest, digits⟩ :=
      List.exists_cons_of_ne_nil (Nat.toDigits_ne_nil (n := n) (b := 10))
    have isDigit : digit.isDigit = true :=
      isDigit_of_mem_toDigits (n := n) (digits ▸ List.mem_cons_self)
    have plain : digit ≠ '-' ∧ digit ≠ '+' := by
      constructor <;> rintro rfl <;> cases isDigit
    simp [writeSigned, digits, sign, plain]

/-- The whole part of a written number has no leading zero. -/
theorem number?_writeSigned (negative : Bool) (n : Nat) {cs middle rest : List Char}
    {fraction : Option (List Char)} {exponent : Option Int}
    (stop : ∀ c ∈ cs.head?, c.isDigit = false) (places : fraction? cs = some (fraction, middle))
    (power : exponent? middle = some (exponent, rest)) :
    number? (writeSigned negative n ++ cs) =
      some (assemble negative (Nat.toDigits 10 n) fraction exponent, rest) := by
  have whole : ((Nat.toDigits 10 n).isEmpty || (decide (1 < (Nat.toDigits 10 n).length) &&
      (Nat.toDigits 10 n).head? == some '0')) = false := by
    rw [Bool.or_eq_false_iff, List.isEmpty_eq_false_iff]
    refine ⟨Nat.toDigits_ne_nil, ?_⟩
    by_cases zero : n = 0
    · subst zero
      rfl
    · have first := head?_toDigits_ne_zero (Nat.pos_of_ne_zero zero)
      simp [first]
  simp only [number?, sign_writeSigned, digits_append (fun c => isDigit_of_mem_toDigits) stop,
    whole, Bool.false_eq_true, ↓reduceIte, places, power]

theorem fraction?_of_ne {cs : List Char} (none : ∀ c ∈ cs.head?, c ≠ '.') :
    fraction? cs = some (Option.none, cs) := by
  unfold fraction?
  split
  · exact absurd rfl (none '.' rfl)
  · rfl

theorem exponent?_of_ne {cs : List Char} (none : ∀ c ∈ cs.head?, c ≠ 'e' ∧ c ≠ 'E') :
    exponent? cs = some (Option.none, cs) := by
  cases cs with
  | nil => rfl
  | cons c rest =>
    have other := none c rfl
    simp [exponent?, other]

theorem exponent?_write (exponent : Int) {cs : List Char}
    (stop : ∀ c ∈ cs.head?, c.isDigit = false) :
    exponent? ('e' :: (toString exponent).toList ++ cs) = some (some exponent, cs) := by
  have some : (Nat.toDigits 10 exponent.natAbs).isEmpty = false :=
    List.isEmpty_eq_false_iff.2 Nat.toDigits_ne_nil
  rw [toList_toString_int]
  simp only [exponent?, List.cons_append, true_or, ↓reduceIte, sign_writeSigned,
    digits_append (fun c => isDigit_of_mem_toDigits) stop, some, Bool.false_eq_true,
    natOfDigits_toDigits, decide_eq_true_eq, Option.some.injEq, Prod.mk.injEq, and_true]
  omega

theorem assemble_integer (value : Int) :
    assemble (decide (value < 0)) (Nat.toDigits 10 value.natAbs) none none = .integer value := by
  have nonzero : (decide (value < 0) && value.natAbs == 0) = false := by
    rw [Bool.and_eq_false_iff, decide_eq_false_iff_not, beq_eq_false_iff_ne]
    omega
  have size :
      (if decide (value < 0) = true then -(value.natAbs : Int) else value.natAbs) = value := by
    simp only [decide_eq_true_eq]
    omega
  rw [assemble, Option.getD_none, List.append_nil, natOfDigits_toDigits]
  simp only [nonzero, size]
  rfl

/-! ### Places and exponents -/

def placesOf (digits places : Nat) : Option (List Char) :=
  if places = 0 then none else some (fixedDigits places (digits % 10 ^ places))

def exponentOf (places : Nat) (exponent : Int) : Option Int :=
  if places ≠ 0 ∧ exponent = 0 then none else some exponent

theorem fraction?_writePlaces (digits places : Nat) {cs : List Char}
    (stop : ∀ c ∈ cs.head?, c.isDigit = false ∧ c ≠ '.') :
    fraction? (writePlaces digits places ++ cs) = some (placesOf digits places, cs) := by
  rw [writePlaces, placesOf]
  split
  · exact fraction?_of_ne fun c first => (stop c first).2
  · next point =>
    have taken : Token.digits (fixedDigits places (digits % 10 ^ places) ++ cs) =
        (fixedDigits places (digits % 10 ^ places), cs) :=
      digits_append (fun c => isDigit_of_mem_fixedDigits) fun c first => (stop c first).1
    have some : (fixedDigits places (digits % 10 ^ places)).isEmpty = false := by
      rw [List.isEmpty_eq_false_iff, ← List.length_pos_iff, length_fixedDigits]
      omega
    simp [fraction?, taken, some]

theorem exponent?_writeExponent (places : Nat) (exponent : Int) {cs : List Char}
    (stops : Stops cs) :
    exponent? (writeExponent places exponent ++ cs) = some (exponentOf places exponent, cs) := by
  rw [writeExponent, exponentOf]
  split
  · exact exponent?_of_ne fun c first => (stops c first).2.2
  · exact exponent?_write exponent fun c first => (stops c first).1

theorem natOfDigits_append_fixedDigits (ds : List Char) (width n : Nat) :
    natOfDigits (ds ++ fixedDigits width n) = natOfDigits ds * 10 ^ width + n % 10 ^ width := by
  have digits : natOfDigits (ds ++ fixedDigits width n) =
      natOfDigits (fixedDigits width n) + natOfDigits ds * 10 ^ width := by
    induction width generalizing n with
    | zero => simp [fixedDigits, natOfDigits]
    | succ width ih =>
      rw [fixedDigits, ← List.append_assoc, natOfDigits_append_singleton,
        natOfDigits_append_singleton, ih, Nat.pow_succ]
      grind
  rw [digits, natOfDigits_fixedDigits, Nat.add_comm]

theorem assemble_decimal (negative : Bool) (digits places : Nat) (exponent : Int) :
    assemble negative (Nat.toDigits 10 (digits / 10 ^ places)) (placesOf digits places)
        (exponentOf places exponent) =
      .decimal negative digits places exponent := by
  by_cases point : places = 0
  · subst point
    simp [assemble, placesOf, exponentOf, natOfDigits_toDigits]
  · have whole : natOfDigits (Nat.toDigits 10 (digits / 10 ^ places) ++
        fixedDigits places (digits % 10 ^ places)) = digits := by
      rw [natOfDigits_append_fixedDigits, natOfDigits_toDigits, Nat.mod_mod, Nat.div_add_mod']
    have power : (exponentOf places exponent).getD 0 = exponent := by
      rw [exponentOf]
      split
      · next none => exact none.2.symm
      · rfl
    simp [assemble, placesOf, point, whole, power]

/-- A number is read back if nothing behind it continues it. -/
theorem number?_writeNumber (n : Number) {cs : List Char} (stops : Stops cs) :
    number? (writeNumber n ++ cs) = some (n, cs) := by
  cases n with
  | integer value =>
    have noPoint := fraction?_of_ne fun c hc => (stops c hc).2.1
    have noExponent := exponent?_of_ne fun c hc => (stops c hc).2.2
    rw [writeNumber, toList_toString_int,
      number?_writeSigned _ _ (fun c hc => (stops c hc).1) noPoint noExponent, assemble_integer]
  | decimal negative digits places exponent =>
    have text : writeNumber (.decimal negative digits places exponent) ++ cs =
        writeSigned negative (digits / 10 ^ places) ++
          (writePlaces digits places ++ (writeExponent places exponent ++ cs)) := by
      simp [writeNumber, writeSigned]
    have behind : ∀ c ∈ (writeExponent places exponent ++ cs).head?,
        c.isDigit = false ∧ c ≠ '.' := by
      rw [writeExponent]
      split
      · exact fun c first => ⟨(stops c first).1, (stops c first).2.1⟩
      · rintro c ⟨⟩
        decide
    have stop : ∀ c ∈ (writePlaces digits places ++ (writeExponent places exponent ++ cs)).head?,
        c.isDigit = false := by
      rw [writePlaces]
      split
      · exact fun c first => (behind c first).1
      · rintro c ⟨⟩
        decide
    rw [text, number?_writeSigned negative _ stop (fraction?_writePlaces digits places behind)
      (exponent?_writeExponent places exponent stops), assemble_decimal]

/-! ### Strings -/

/-- The piece a character is written as: itself, if it stands as it is or has a short escape. -/
def pieceOf (c : Char) : Piece :=
  if (escapeLetter? c).isNone ∧ c.toNat < 0x20 then .unit c.toNat else .char c

theorem hexDigit?_hexDigit : ∀ n < 16, hexDigit? (hexDigit n) = some n := by decide

/-- A short escape is read as the character that it was chosen for. -/
theorem escape?_of_escapeLetter? {c letter : Char} (short : escapeLetter? c = some letter) :
    escape? letter = some c ∧ letter ≠ 'u' := by
  unfold escapeLetter? at short
  split at short <;> cases short <;> exact ⟨rfl, by decide⟩

theorem pieces?_writeChar (c : Char) (cs : List Char) :
    pieces? (writeChar c ++ cs) = (pieces? cs).map fun (ps, rest) => (pieceOf c :: ps, rest) := by
  have eta : ∀ found : Option (List Piece × List Char), ∀ p : Piece,
      (found.bind fun (ps, rest) => some (p :: ps, rest)) =
        found.map fun (ps, rest) => (p :: ps, rest) := by
    intro found p
    cases found <;> rfl
  rw [writeChar, pieceOf]
  cases short : escapeLetter? c with
  | some letter =>
    obtain ⟨escaped, other⟩ := escape?_of_escapeLetter? short
    show pieces? ('\\' :: letter :: cs) = _
    rw [pieces?, escaped]
    · exact eta _ _
    · intro _ _ _ _ _ leads _
      exact absurd leads other
  | none =>
    have quote : c ≠ '"' := by
      rintro rfl
      cases short
    have backslash : c ≠ '\\' := by
      rintro rfl
      cases short
    simp only [Option.isNone_none, true_and]
    by_cases control : c.toNat < 0x20
    · have unit : unit? '0' '0' (hexDigit (c.toNat / 16)) (hexDigit (c.toNat % 16)) =
          some c.toNat := by
        have digits : ((0 * 16 + 0) * 16 + c.toNat / 16) * 16 + c.toNat % 16 = c.toNat := by omega
        rw [unit?, hexDigit?_hexDigit _ (by omega), hexDigit?_hexDigit _ (by omega)]
        exact congrArg some digits
      rw [if_pos control, if_pos control, List.cons_append, List.cons_append,
        List.cons_append, List.cons_append, List.cons_append, List.cons_append, pieces?, unit]
      exact eta _ _
    · rw [if_neg control, if_neg control, List.singleton_append, pieces?, if_neg control]
      · exact eta _ _
      · exact quote
      · intro _ _ _ _ _ leads _
        exact absurd leads backslash
      · intro _ _ leads
        exact absurd leads backslash

theorem characters?_map_pieceOf (cs : List Char) : characters? (cs.map pieceOf) = some cs := by
  induction cs with
  | nil => rfl
  | cons c rest ih =>
    rw [List.map_cons, pieceOf]
    split
    · next control =>
      have low : ¬ (0xD800 ≤ c.toNat ∧ c.toNat < 0xDC00) := by omega
      have high : ¬ (0xDC00 ≤ c.toNat ∧ c.toNat < 0xE000) := by omega
      rw [characters?.eq_def]
      simp only [low, high, ↓reduceIte, ih, Char.ofNat_toNat]
      rfl
    · rw [characters?, ih]
      rfl

/-- A string is read back from what stands behind its opening quote. -/
theorem string?_write (s : String) (cs : List Char) :
    string? (s.toList.flatMap writeChar ++ '"' :: cs) = some (some s, cs) := by
  have pieces (chars : List Char) :
      pieces? (chars.flatMap writeChar ++ '"' :: cs) = some (chars.map pieceOf, cs) := by
    induction chars with
    | nil => rfl
    | cons c rest ih =>
      rw [List.flatMap_cons, List.append_assoc, pieces?_writeChar, ih]
      rfl
  rw [string?, pieces]
  simp [characters?_map_pieceOf]

/-! ### Tokens -/

def IsNumber : Token → Prop
  | .number _ => True
  | _ => False

/-- A token is what its first character, which is no blank, begins. -/
theorem ofText_cons {c : Char} {rest left : List Char} {t : Token} (solid : isBlank c = false)
    (next : next? c rest = some (t, left)) : ofText (c :: rest) = (ofText left).map (t :: ·) := by
  rw [ofText, solid]
  simp only [Bool.false_eq_true, ↓reduceIte]
  split
  · next none => cases none.symm.trans next
  · next token left' found =>
    obtain ⟨rfl, rfl⟩ := Prod.mk.inj (Option.some.inj (found.symm.trans next))
    rfl

/-- A number begins with a digit or a minus, as no other token does. -/
theorem next?_of_number {c : Char} (first : c.isDigit = true ∨ c = '-') (rest : List Char) :
    next? c rest = (number? (c :: rest)).map fun (n, rest) => (.number n, rest) := by
  unfold next?
  split <;> first | rfl | (exfalso; revert first; decide)

theorem isBlank_of_number {c : Char} (first : c.isDigit = true ∨ c = '-') : isBlank c = false := by
  have blanks : c ≠ ' ' ∧ c ≠ '\t' ∧ c ≠ '\n' ∧ c ≠ '\r' := by
    refine ⟨?_, ?_, ?_, ?_⟩ <;> rintro rfl <;> revert first <;> decide
  simp [isBlank, blanks]

theorem exists_writeNumber_eq (n : Number) :
    ∃ c rest, writeNumber n = c :: rest ∧ (c.isDigit = true ∨ c = '-') := by
  have signed (negative : Bool) (n : Nat) (more : List Char) :
      ∃ c rest, writeSigned negative n ++ more = c :: rest ∧ (c.isDigit = true ∨ c = '-') := by
    cases negative with
    | true => exact ⟨'-', _, rfl, Or.inr rfl⟩
    | false =>
      obtain ⟨digit, rest, digits⟩ :=
        List.exists_cons_of_ne_nil (Nat.toDigits_ne_nil (n := n) (b := 10))
      refine ⟨digit, rest ++ more, ?_, Or.inl (isDigit_of_mem_toDigits (n := n) ?_)⟩
      · simp [writeSigned, digits]
      · rw [digits]
        exact List.mem_cons_self
  cases n with
  | integer value =>
    rw [writeNumber, toList_toString_int, ← List.append_nil (writeSigned _ _)]
    exact signed _ _ []
  | decimal negative digits places exponent =>
    have text : writeNumber (.decimal negative digits places exponent) =
        writeSigned negative (digits / 10 ^ places) ++
          (writePlaces digits places ++ writeExponent places exponent) := by
      simp [writeNumber, writeSigned]
    rw [text]
    exact signed negative _ _

/-- A token is read back, if it is not a number that goes on behind it. -/
theorem ofText_write (t : Token) {cs : List Char} (stops : IsNumber t → Stops cs) :
    ofText (t.write ++ cs) = (ofText cs).map (t :: ·) := by
  cases t with
  | number n =>
    obtain ⟨c, rest, text, first⟩ := exists_writeNumber_eq n
    have read := number?_writeNumber n (stops trivial)
    rw [write, text, List.cons_append] at *
    apply ofText_cons (isBlank_of_number first)
    rw [next?_of_number first, read]
    rfl
  | text t =>
    cases t with
    | none =>
      have surrogate : writeText none = ['"', '\\', 'u', 'd', '8', '0', '0', '"'] := by decide
      have read :
          string? ('\\' :: 'u' :: 'd' :: '8' :: '0' :: '0' :: '"' :: cs) = some (none, cs) := rfl
      rw [write, surrogate]
      refine ofText_cons (c := '"') rfl ?_
      exact congrArg (Option.map fun found => (text found.1, found.2)) read
    | some s =>
      have quoted : writeText (some s) = '"' :: s.toList.flatMap writeChar ++ ['"'] := rfl
      have read := string?_write s cs
      rw [write, quoted, List.append_assoc, List.cons_append, List.singleton_append]
      refine ofText_cons (c := '"') rfl ?_
      exact congrArg (Option.map fun found => (text found.1, found.2)) read
  | _ => exact ofText_cons rfl rfl

/-- Whether two numbers stand nowhere side by side. -/
def Separated : List Token → Prop
  | [] => True
  | t :: rest => (IsNumber t → ∀ next ∈ rest.head?, ¬ IsNumber next) ∧ Separated rest

theorem stops_write {t : Token} (other : ¬ IsNumber t) (cs : List Char) :
    Stops (t.write ++ cs) := by
  cases t with
  | number n => exact absurd trivial other
  | text t =>
    cases t <;> rintro c ⟨⟩ <;> decide
  | _ => rintro c ⟨⟩; decide

theorem ofText_flatMap_write {tokens : List Token} (separated : Separated tokens) :
    ofText (tokens.flatMap write) = some tokens := by
  induction tokens with
  | nil => rw [List.flatMap_nil, ofText]
  | cons t rest ih =>
    obtain ⟨alone, others⟩ := separated
    have stops : IsNumber t → Stops (rest.flatMap write) := by
      intro number
      cases rest with
      | nil =>
        rintro c ⟨⟩
      | cons next more =>
        rw [List.flatMap_cons]
        exact stops_write (alone number next rfl) _
    rw [List.flatMap_cons, ofText_write t stops, ih others]
    rfl

end Token

namespace Value

open Token

/-- Whether tokens may stand behind a value: no number comes first. -/
def Fenced (rest : List Token) : Prop :=
  Separated rest ∧ ∀ next ∈ rest.head?, ¬ IsNumber next

theorem Fenced.cons (t : Token) {rest : List Token} (other : ¬ IsNumber t)
    (separated : Separated rest) : Fenced (t :: rest) := by
  refine ⟨⟨fun number => absurd number other, separated⟩, ?_⟩
  rintro next ⟨⟩
  exact other

mutual

theorem separated_tokens (v : Value) {rest : List Token} (fenced : Fenced rest) :
    Separated (v.tokens ++ rest) := by
  cases v with
  | null => exact ⟨fun _ => fenced.2, fenced.1⟩
  | bool b => cases b <;> exact ⟨fun _ => fenced.2, fenced.1⟩
  | number n => exact ⟨fun _ => fenced.2, fenced.1⟩
  | text t => exact ⟨fun _ => fenced.2, fenced.1⟩
  | array items =>
    have closed : Fenced (.endArray :: rest) := .cons .endArray not_false fenced.1
    rw [tokens, List.append_assoc, List.cons_append, List.singleton_append]
    refine (Fenced.cons .beginArray not_false ?_).1
    cases items with
    | nil => exact closed.1
    | cons item more =>
      rw [itemTokens, List.append_assoc]
      exact separated_tokens item (fenced_itemTokens more closed)
  | object members =>
    have closed : Fenced (.endObject :: rest) := .cons .endObject not_false fenced.1
    rw [tokens, List.append_assoc, List.cons_append, List.singleton_append]
    refine (Fenced.cons .beginObject not_false ?_).1
    cases members with
    | nil => exact closed.1
    | cons member more =>
      obtain ⟨name, value⟩ := member
      have behind := separated_tokens value (fenced_memberTokens more closed)
      rw [memberTokens, List.append_assoc]
      exact (Fenced.cons (.text name) not_false (Fenced.cons .colon not_false behind).1).1

theorem fenced_itemTokens (more : List Value) {rest : List Token} (fenced : Fenced rest) :
    Fenced (itemTokens false more ++ rest) := by
  cases more with
  | nil => exact fenced
  | cons item more =>
    rw [itemTokens, List.append_assoc]
    exact .cons .comma not_false (separated_tokens item (fenced_itemTokens more fenced))

/-- Each further member stands behind a comma and its value behind a colon. -/
theorem fenced_memberTokens (more : List (Text × Value)) {rest : List Token}
    (fenced : Fenced rest) : Fenced (memberTokens false more ++ rest) := by
  cases more with
  | nil => exact fenced
  | cons member more =>
    obtain ⟨name, value⟩ := member
    have behind := separated_tokens value (fenced_memberTokens more fenced)
    rw [memberTokens, List.append_assoc]
    exact .cons .comma not_false
      (Fenced.cons (.text name) not_false (Fenced.cons .colon not_false behind).1).1

end

/-- A value is read back from its text. -/
theorem ofText?_toText (v : Value) : ofText? v.toText = some v := by
  have separated : Separated v.tokens := by
    rw [← List.append_nil v.tokens]
    exact v.separated_tokens ⟨trivial, nofun⟩
  rw [ofText?, toText, String.toList_ofList, ofText_flatMap_write separated]
  exact ofTokens?_tokens v

end Value
end Seismogram.Json
