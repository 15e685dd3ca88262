import Seismogram.Steim.Decode

/-!
# What data words say

The fields of a data word are integers, chosen by the nibble and the leading bits of the word;
two combinations of the second encoding choose none. Decoding is described here on whole lists
of frames: a frame is reached when those before it carry too few fields, the first undefined
word of a reached frame is the fault, and otherwise all fields of the reached frames are
gathered.

Reached frames are said by counting, without the loop that walks over them, so that facts about
the loop are proved once (`gather_eq`) and then only used.
-/

namespace Seismogram.Steim

attribute [local instance (2000)] instPowNat Zero.ofOfNat0

namespace Word

/-- The lowest `count · bits` bits as `count` two's-complement integers, the most significant
first. -/
def integers (w : Word) (count bits : Nat) : List Int :=
  (List.range count).map fun i => Int.bmod (w.toNat / 2 ^ (bits * (count - 1 - i))) (2 ^ bits)

theorem fields_eq_integers (w : Word) (count bits : Nat) :
    w.fields count bits = (w.integers count bits).map Int32.ofInt := by
  rw [fields, integers, List.map_map]
  apply List.map_congr_left
  intro i _
  have cast : ((w.field bits (count - 1 - i) : Nat) : Int)
      = (w.toNat / 2 ^ (bits * (count - 1 - i)) : Nat) % (2 ^ bits : Nat) := by
    rw [field, Int.natCast_emod]
  rw [signed, cast, Int.emod_bmod]
  rfl

end Word

namespace Cell

def integers (e : Encoding) (c : Cell) : List Int :=
  match e, c.nibble, c.word.selector with
  | _, 1, _ => c.word.integers 4 8
  | .steim1, 2, _ => c.word.integers 2 16
  | .steim1, 3, _ => c.word.integers 1 32
  | .steim2, 2, 1 => c.word.integers 1 30
  | .steim2, 2, 2 => c.word.integers 2 15
  | .steim2, 2, 3 => c.word.integers 3 10
  | .steim2, 3, 0 => c.word.integers 5 6
  | .steim2, 3, 1 => c.word.integers 6 5
  | .steim2, 3, 2 => c.word.integers 7 4
  | _, _, _ => []

/-- Whether nibble and leading bits choose no fields. -/
def Undefined (e : Encoding) (c : Cell) : Prop :=
  e = .steim2 ∧ (c.nibble = 2 ∧ c.word.selector = 0 ∨ c.nibble = 3 ∧ c.word.selector = 3)

instance (e : Encoding) (c : Cell) : Decidable (c.Undefined e) :=
  inferInstanceAs (Decidable (e = .steim2 ∧
    (c.nibble = 2 ∧ c.word.selector = 0 ∨ c.nibble = 3 ∧ c.word.selector = 3)))

/-- Nibble and leading bits are two bits each, so their combinations can be gone through. -/
theorem differences_eq (e : Encoding) {c : Cell} (small : c.nibble < 4) :
    c.differences e =
      if c.Undefined e then .error (.undefinedLayout e c.nibble c.word.selector)
      else .ok ((c.integers e).map Int32.ofInt) := by
  have hw := c.word.selector_lt
  have selectors : c.word.selector = 0 ∨ c.word.selector = 1 ∨ c.word.selector = 2 ∨
      c.word.selector = 3 := by omega
  have nibbles : c.nibble = 0 ∨ c.nibble = 1 ∨ c.nibble = 2 ∨ c.nibble = 3 := by omega
  unfold differences layout? Layout.fits Undefined integers
  rcases selectors with hs | hs | hs | hs <;> rcases nibbles with hn | hn | hn | hn <;>
    cases e <;> simp [layouts, hs, hn, Word.fields_eq_integers]

end Cell

/-- The samples in the fields of data words, or the fault of the first word without fields. -/
def reading (e : Encoding) (cells : List Cell) : Except Fault (List Sample) :=
  match cells.find? fun c => c.Undefined e with
  | some c => .error (.undefinedLayout e c.nibble c.word.selector)
  | none => .ok ((cells.flatMap (Cell.integers e)).map Int32.ofInt)

def carried (e : Encoding) (frames : List (List Cell)) : List Int :=
  frames.flatten.flatMap (Cell.integers e)

/-- The frames before which fewer fields than wanted are carried. -/
def reached (e : Encoding) (wanted : Nat) (frames : List (List Cell)) : List (List Cell) :=
  (frames.zipIdx.filter fun entry => (carried e (frames.take entry.2)).length < wanted).map Prod.fst

section Reading

variable {e : Encoding}

theorem reading_append (front back : List Cell) :
    reading e (front ++ back) = (reading e front).bind fun ds =>
      (reading e back).map fun more => ds ++ more := by
  simp only [reading, List.find?_append]
  cases front.find? fun c => c.Undefined e with
  | some c => rfl
  | none =>
    cases back.find? fun c => c.Undefined e with
    | some c => rfl
    | none =>
      rw [Option.or_none, List.flatMap_append, List.map_append]
      rfl

theorem reading_singleton {c : Cell} (small : c.nibble < 4) :
    reading e [c] = c.differences e := by
  rw [Cell.differences_eq e small, reading]
  by_cases undefined : c.Undefined e
  · rw [List.find?_cons_of_pos (by simpa using undefined), if_pos undefined]
  · rw [List.find?_cons_of_neg (by simpa using undefined), List.find?_nil, if_neg undefined,
      List.flatMap_cons, List.flatMap_nil, List.append_nil]

theorem reading_eq_ok_iff {cells : List Cell} {ds : List Sample} :
    reading e cells = .ok ds ↔
      (∀ c ∈ cells, ¬ c.Undefined e) ∧ (cells.flatMap (Cell.integers e)).map Int32.ofInt = ds := by
  rw [reading]
  cases found : cells.find? fun c => c.Undefined e with
  | some c =>
    have undefined : c.Undefined e := by simpa using List.find?_some found
    constructor
    · intro h
      cases h
    · rintro ⟨defined, -⟩
      exact absurd undefined (defined c (List.mem_of_find?_eq_some found))
  | none =>
    have defined : ∀ c ∈ cells, ¬ c.Undefined e := by simpa using List.find?_eq_none.1 found
    constructor
    · intro h
      exact ⟨defined, Except.ok.inj h⟩
    · rintro ⟨-, rfl⟩
      rfl

theorem differences_eq_reading {cells : List Cell} (small : ∀ c ∈ cells, c.nibble < 4) :
    differences e cells = reading e cells := by
  induction cells with
  | nil => rfl
  | cons c rest ih =>
    have first := reading_singleton (e := e) (small c List.mem_cons_self)
    have others : differences e rest = reading e rest := by
      apply ih
      intro d hd
      exact small d (List.mem_cons_of_mem c hd)
    rw [← List.singleton_append, reading_append, first, ← others, List.singleton_append,
      differences]
    cases c.differences e with
    | error fault => rfl
    | ok ds => cases differences e rest <;> rfl

theorem carried_cons (cells : List Cell) (rest : List (List Cell)) :
    carried e (cells :: rest) = cells.flatMap (Cell.integers e) ++ carried e rest := by
  rw [carried, List.flatten_cons, List.flatMap_append, ← carried]

theorem reached_zero (frames : List (List Cell)) : reached e 0 frames = [] := by
  simp [reached]

/-- The first frame is reached unless nothing is wanted, and its fields count for the others. -/
theorem reached_cons (wanted : Nat) (pos : wanted ≠ 0) (cells : List Cell)
    (rest : List (List Cell)) :
    reached e wanted (cells :: rest) =
      cells :: reached e (wanted - (cells.flatMap (Cell.integers e)).length) rest := by
  have first : (carried e ((cells :: rest).take 0)).length < wanted := Nat.pos_of_ne_zero pos
  have later : ∀ k, (carried e ((cells :: rest).take (k + 1))).length < wanted ↔
      (carried e (rest.take k)).length < wanted - (cells.flatMap (Cell.integers e)).length := by
    intro k
    rw [List.take_succ_cons, carried_cons, List.length_append]
    omega
  rw [reached, List.zipIdx_cons, List.filter_cons_of_pos (by exact decide_eq_true first),
    List.map_cons, List.zipIdx_succ, List.filter_map, List.map_map]
  simp only [Function.comp_def, later]
  rfl

theorem mem_of_mem_reached {wanted : Nat} {frames : List (List Cell)} {cells : List Cell}
    (member : cells ∈ reached e wanted frames) : cells ∈ frames := by
  obtain ⟨⟨found, k⟩, h, rfl⟩ := List.mem_map.1 member
  exact List.fst_mem_of_mem_zipIdx (List.mem_filter.1 h).1

theorem gather_eq {frames : List (List Cell)} (small : ∀ c ∈ frames.flatten, c.nibble < 4)
    (wanted : Nat) :
    gather e wanted frames = reading e (reached e wanted frames).flatten := by
  induction frames generalizing wanted with
  | nil => rfl
  | cons cells rest ih =>
    rw [List.flatten_cons] at small
    rw [gather]
    by_cases enough : wanted = 0
    · subst enough
      rw [if_pos rfl, reached_zero]
      rfl
    · rw [if_neg enough, reached_cons wanted enough, List.flatten_cons, reading_append,
        differences_eq_reading fun c hc => small c (List.mem_append_left _ hc)]
      cases here : reading e cells with
      | error fault => rfl
      | ok ds =>
        have count : ds.length = (cells.flatMap (Cell.integers e)).length := by
          obtain ⟨-, rfl⟩ := reading_eq_ok_iff.1 here
          rw [List.length_map]
        simp only [Except.bind]
        rw [ih (fun c hc => small c (List.mem_append_right _ hc)), count]
        cases reading e (reached e _ rest).flatten <;> rfl

/-- The wanted fields all lie in reached frames. -/
theorem take_carried_reached (frames : List (List Cell)) (wanted : Nat) :
    (carried e (reached e wanted frames)).take wanted = (carried e frames).take wanted := by
  induction frames generalizing wanted with
  | nil => rfl
  | cons cells rest ih =>
    by_cases enough : wanted = 0
    · rw [enough, List.take_zero, List.take_zero]
    · rw [reached_cons wanted enough, carried_cons, carried_cons, List.take_append,
        List.take_append, ih]

/-- Where all data words are defined, as many of their samples are gathered as are wanted. -/
theorem gather_of_reading {frames : List (List Cell)} {ds : List Sample}
    (small : ∀ c ∈ frames.flatten, c.nibble < 4) (read : reading e frames.flatten = .ok ds)
    (wanted : Nat) :
    ∃ gathered, gather e wanted frames = .ok gathered ∧ gathered.take wanted = ds.take wanted := by
  obtain ⟨defined, rfl⟩ := reading_eq_ok_iff.1 read
  refine ⟨(carried e (reached e wanted frames)).map Int32.ofInt, ?_, ?_⟩
  · rw [gather_eq small, reading_eq_ok_iff]
    refine ⟨?_, rfl⟩
    intro c hc
    obtain ⟨cells, hcells, member⟩ := List.mem_flatten.1 hc
    exact defined c (List.mem_flatten_of_mem (mem_of_mem_reached hcells) member)
  · rw [← List.map_take, take_carried_reached, List.map_take]
    rfl

/-- The reached frames hold too few fields just when all frames do. -/
theorem length_carried_reached_lt_iff (frames : List (List Cell)) (wanted : Nat) :
    (carried e (reached e wanted frames)).length < wanted ↔
      (carried e frames).length < wanted := by
  have counts := congrArg List.length (take_carried_reached (e := e) frames wanted)
  rw [List.length_take, List.length_take] at counts
  omega

/-- Where fewer fields are held than wanted, all frames are reached. -/
theorem carried_reached_of_lt {frames : List (List Cell)} {wanted : Nat}
    (few : (carried e (reached e wanted frames)).length < wanted) :
    carried e (reached e wanted frames) = carried e frames := by
  have all := (length_carried_reached_lt_iff frames wanted).1 few
  have key := take_carried_reached (e := e) frames wanted
  rwa [List.take_of_length_le (Nat.le_of_lt few), List.take_of_length_le (Nat.le_of_lt all)] at key

end Reading

/-- Running sums wrap around, so each is the remainder of an exact sum. -/
theorem integrate_ofInt (first : Int) (ds : List Int) :
    integrate (Int32.ofInt first) (ds.map Int32.ofInt) =
      (List.range (ds.length + 1)).map fun i => Int32.ofInt (first + (ds.take i).sum) := by
  induction ds generalizing first with
  | nil => simp [integrate]
  | cons d ds ih =>
    rw [List.map_cons, integrate, ← Int32.ofInt_add, ih, List.length_cons,
      List.range_succ_eq_map (n := ds.length + 1), List.map_cons, List.map_map]
    simp [Function.comp_def, Int.add_assoc]

end Seismogram.Steim
