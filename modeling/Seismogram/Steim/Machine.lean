import Seismogram.Steim.Decode

/-!
# Decoding on a machine

The decoder once more, as a machine with words of 32 bits carries it out. Fields are cut out of a
word by shifts and a mask, words are looked up by their position, and the differences are held in
one growing list. A machine cannot shift by the width of a word, count below zero or look behind
the end of a list; whatever would need that is a trap here, so a run that comes to an end has
done none of it.
-/

namespace Seismogram.Steim.Machine

/-- An operation that a machine cannot carry out. -/
inductive Trap where
  /-- A shift by the width of a word or more. -/
  | shift (amount : Nat)
  /-- A difference of counts below zero. -/
  | below (count less : Nat)
  /-- A position that a list does not have. -/
  | position (index length : Nat)
  /-- A part that a list does not have. -/
  | part (start stop length : Nat)
  deriving DecidableEq, Repr

def shiftLeft (w : Word) (amount : Nat) : Except Trap Word :=
  if amount < 32 then .ok (w <<< UInt32.ofNat amount) else .error (.shift amount)

def shiftRight (w : Word) (amount : Nat) : Except Trap Word :=
  if amount < 32 then .ok (w >>> UInt32.ofNat amount) else .error (.shift amount)

/-- A sample shifted away from its leading bits, which keeps its sign. -/
def shiftRightSigned (d : Sample) (amount : Nat) : Except Trap Sample :=
  if amount < 32 then .ok (d >>> Int32.ofNat amount) else .error (.shift amount)

def subtract (count less : Nat) : Except Trap Nat :=
  if less ≤ count then .ok (count - less) else .error (.below count less)

variable {α : Type}

def element (xs : List α) (index : Nat) : Except Trap α :=
  match xs[index]? with
  | some x => .ok x
  | none => .error (.position index xs.length)

def part (xs : List α) (start stop : Nat) : Except Trap (List α) :=
  if start ≤ stop ∧ stop ≤ xs.length then .ok ((xs.take stop).drop start)
  else .error (.part start stop xs.length)

def nibble (control : Word) (index : Nat) : Except Trap Word := do
  let amount ← subtract 30 (2 * index)
  let low ← shiftRight control amount
  return low &&& 3

def signExtend (w : Word) (bits : Nat) : Except Trap Sample := do
  let amount ← subtract 32 bits
  let leading ← shiftLeft w amount
  shiftRightSigned leading.toInt32 amount

/-- Appends the fields numbered below `count`, which count from the end of the word. -/
def pushFields (w mask : Word) (bits : Nat) : Nat → List Sample → Except Trap (List Sample)
  | 0, held => return held
  | number + 1, held => do
    let low ← shiftRight w (number * bits)
    let field ← signExtend (low &&& mask) bits
    pushFields w mask bits number (held ++ [field])

def pushPacked (w : Word) (count bits : Nat) (held : List Sample) : Except Trap (List Sample) := do
  let power ← shiftLeft 1 bits
  let mask ← subtract power.toNat 1
  pushFields w (UInt32.ofNat mask) bits count held

/-- Appends the four bytes of a word as signed numbers. -/
def pushBytes (w : Word) (held : List Sample) : List Sample :=
  held ++ w.bytes.map fun byte => byte.toInt8.toInt32

/-- The differences held when gathering comes to its end, and the fault that ended it, if one
did. -/
structure Gathered where
  held : List Sample
  fault : Option Fault

def Gathered.result (gathered : Gathered) : Except Fault (List Sample) :=
  match gathered.fault with
  | some fault => .error fault
  | none => .ok gathered.held

def unpack (e : Encoding) (nibble : Nat) (w : Word) (held : List Sample) :
    Except Trap Gathered := do
  let packed (count bits : Nat) : Except Trap Gathered := do
    return ⟨← pushPacked w count bits held, none⟩
  match e with
  | .steim1 =>
    match nibble with
    | 0 => return ⟨held, none⟩
    | 1 => return ⟨pushBytes w held, none⟩
    | 2 => packed 2 16
    | _ => return ⟨held ++ [w.toInt32], none⟩
  | .steim2 =>
    let selector ← shiftRight w 30
    let undefined : Gathered := ⟨held, some (.undefinedLayout e nibble selector.toNat)⟩
    match nibble with
    | 0 => return ⟨held, none⟩
    | 1 => return ⟨pushBytes w held, none⟩
    | 2 =>
      match selector.toNat with
      | 1 => packed 1 30
      | 2 => packed 2 15
      | 3 => packed 3 10
      | _ => return undefined
    | _ =>
      match selector.toNat with
      | 0 => packed 5 6
      | 1 => packed 6 5
      | 2 => packed 7 4
      | _ => return undefined

/-- Appends the differences of the words of a frame, the first of which has the given number, up to
the first undefined one. -/
def unpackWords (e : Encoding) (control : Word) :
    Nat → List Word → List Sample → Except Trap Gathered
  | _, [], held => return ⟨held, none⟩
  | index, w :: rest, held => do
    let code ← nibble control index
    let here ← unpack e code.toNat w held
    match here.result with
    | .error _ => return here
    | .ok held => unpackWords e control (index + 1) rest held

def firstData (number : Nat) : Nat := if number = 0 then 3 else 1

/-- Appends the differences of frames, the first of which has the given number, until `wanted` are
held. -/
def unpackFrames (e : Encoding) (wanted : Nat) :
    Nat → List (List Word) → List Sample → Except Trap Gathered
  | _, [], held => return ⟨held, none⟩
  | number, frame :: rest, held =>
    if wanted ≤ held.length then return ⟨held, none⟩
    else do
      let control ← element frame 0
      let here ← unpackWords e control (firstData number) (frame.drop (firstData number)) held
      match here.result with
      | .error _ => return here
      | .ok held => unpackFrames e wanted (number + 1) rest held

/-- The words cut into groups of sixteen; a shorter rest is left out. -/
def frames (words : List Word) : List (List Word) :=
  (List.range (words.length / frameWords)).map fun k =>
    (words.drop (frameWords * k)).take frameWords

/-- The answer for the two integration constants and the differences, or the fault, that were
found. -/
def conclude (e : Encoding) (wanted : Nat) (forward reverse : Word)
    (found : Except Fault (List Sample)) : Except Trap Answer :=
  match found with
  | .error fault => return ⟨[], .error (.steim fault)⟩
  | .ok held =>
    if held.length < wanted then return ⟨[], .error (.steim (.tooFew e wanted held.length))⟩
    else do
      let steps ← part held 1 wanted
      let decoded := integrate forward.toSample steps
      return ⟨checkLast e [⟨0, [forward, reverse]⟩] decoded, .ok decoded⟩

/-- What a run leaves behind: the room reserved for differences before the first of them, the
differences held in the end, which is when there are most, and the answer. -/
structure Run where
  reserved : Nat
  held : List Sample
  answer : Answer

/-- Decodes `wanted` samples from a buffer whose words are stored in the given order. -/
def decode (e : Encoding) (buffer : List UInt8) (wanted : Nat) (order : ByteOrder) :
    Except Trap Run :=
  if wanted = 0 then return ⟨0, [], ⟨[], .ok []⟩⟩
  else if buffer.length % frameBytes ≠ 0 then
    return ⟨0, [], ⟨[], .error (.bufferLength frameBytes buffer.length)⟩⟩
  else
    let words := Word.ofBuffer order buffer
    if words.isEmpty then return ⟨0, [], ⟨[], .error (.steim (.noFrames e wanted))⟩⟩
    else do
      let forward ← element words 1
      let reverse ← element words 2
      -- No word holds more than seven differences, so a larger count reserves nothing more.
      let reserved := min wanted (words.length * 7)
      let gathered ← unpackFrames e wanted 0 (frames words) []
      let answer ← conclude e wanted forward reverse gathered.result
      return ⟨reserved, gathered.held, answer⟩

end Seismogram.Steim.Machine
